import Mathlib.Data.List.Forall2
import Phrasebook.Proofs.Diagnostic.Report
import Phrasebook.Schema.Merger

/-! # Lists written as mappings

A list can be written as the mapping from the positions of its items, as decimal numerals, to the
items (`Datum.numberedFrom`). A tree is numbered if some of its lists, at any depth, are written so
(`Datum.Numbered`).

* `Datum.Numbered.visits_eq`: a walk meets the same values in a numbered tree, at the same paths and
  in the same order, and it ends at the same place if the guard stops it.
* `Catalogue.merge_eq_of_numbered`: so numbered documents are merged like the documents themselves,
  with the same notices and the same outcome. -/

namespace Phrasebook

namespace Datum

/-! ### Numbered trees -/

/-- The entries of a list that is written as a mapping, with the number of its first item. -/
def numberedFrom {α : Type} (position : Nat) (items : List (Datum α)) :
    List (DatumKey × Datum α) :=
  (items.zipIdx position).map fun (item, n) => (.text (Numeral.ofNat n), item)

theorem numberedFrom_cons {α : Type} (position : Nat) (item : Datum α) (items : List (Datum α)) :
    numberedFrom position (item :: items) =
      (.text (Numeral.ofNat position), item) :: numberedFrom (position + 1) items := by
  unfold numberedFrom
  rw [List.zipIdx_cons, List.map_cons]

/-- **A tree is numbered**: any number of its lists are written as mappings from positions. -/
inductive Numbered : Datum Foreign → Datum Foreign → Prop where
  | same (tree : Datum Foreign) : Numbered tree tree
  | list {items others : List (Datum Foreign)} (h : List.Forall₂ Numbered items others) :
      Numbered (.list items) (.list others)
  /-- A list is written as a mapping. -/
  | number {items others : List (Datum Foreign)} (h : List.Forall₂ Numbered items others) :
      Numbered (.list items) (.map (numberedFrom 0 others))
  | map {entries others : List (DatumKey × Datum Foreign)}
      (hkeys : entries.map (·.1) = others.map (·.1))
      (h : List.Forall₂ Numbered (entries.map (·.2)) (others.map (·.2))) :
      Numbered (.map entries) (.map others)

theorem Numbered.isContainer_eq {tree other : Datum Foreign} (h : Numbered tree other) :
    tree.isContainer = other.isContainer := by
  cases h <;> rfl

/-! ### Walks -/

/-- **A list is walked like the mapping** from the positions of its items. -/
theorem visitsOfEntries_numberedFrom (guard : NestingGuard) (path : KeyPath) (position : Nat)
    (items : List (Datum Foreign)) : visitsOfEntries guard path (numberedFrom position items) =
      visitsOfItems guard path position items := by
  induction items generalizing position with
  | nil => rfl
  | cons item rest ih =>
    rw [numberedFrom_cons, visitsOfEntries, visitsOfItems, ih]
    rfl

mutual

/-- **The visits of a numbered tree** are those of the tree. -/
theorem Numbered.visits_eq : ∀ (tree : Datum Foreign) {other : Datum Foreign} (guard : NestingGuard)
    (path : KeyPath), Numbered tree other → tree.visits guard path = other.visits guard path
  | .list items, _, guard, path, h => by
    cases h with
    | same => rfl
    | list h =>
      rw [visits, visits]
      cases guard.enter path.key with
      | error problem => rfl
      | ok inside => exact Numbered.visitsOfItems_eq items inside path 0 h
    | number h =>
      rw [visits, visits]
      cases guard.enter path.key with
      | error problem => rfl
      | ok inside =>
        exact (Numbered.visitsOfItems_eq items inside path 0 h).trans
          (visitsOfEntries_numberedFrom inside path 0 _).symm
  | .map entries, _, guard, path, h => by
    cases h with
    | same => rfl
    | map hkeys h =>
      rw [visits, visits]
      cases guard.enter path.key with
      | error problem => rfl
      | ok inside => exact Numbered.visitsOfEntries_eq entries inside path hkeys h
  | .null, _, _, _, h | .bool _, _, _, _, h | .number _, _, _, _, h | .text _, _, _, _, h
  | .tuple _, _, _, _, h | .other _, _, _, _, h => by
    cases h
    rfl

theorem Numbered.visitsOfItems_eq : ∀ (items : List (Datum Foreign))
    {others : List (Datum Foreign)} (guard : NestingGuard) (path : KeyPath) (position : Nat),
      List.Forall₂ Numbered items others →
        visitsOfItems guard path position items = visitsOfItems guard path position others
  | [], _, _, _, _, h => by
    cases h
    rfl
  | item :: rest, _, guard, path, position, h => by
    cases h with
    | cons hitem hrest =>
      rw [visitsOfItems, visitsOfItems, Numbered.visits_eq item guard _ hitem,
        Numbered.visitsOfItems_eq rest guard path _ hrest]

theorem Numbered.visitsOfEntries_eq : ∀ (entries : List (DatumKey × Datum Foreign))
    {others : List (DatumKey × Datum Foreign)} (guard : NestingGuard) (path : KeyPath),
      entries.map (·.1) = others.map (·.1) →
        List.Forall₂ Numbered (entries.map (·.2)) (others.map (·.2)) →
          visitsOfEntries guard path entries = visitsOfEntries guard path others
  | [], others, _, _, hkeys, _ => by
    obtain rfl := List.map_eq_nil_iff.mp hkeys.symm
    rfl
  | (key, value) :: rest, others, guard, path, hkeys, h => by
    cases others with
    | nil => cases hkeys
    | cons entry others =>
      obtain ⟨rfl, hothers⟩ := List.cons.inj hkeys
      cases h with
      | cons hvalue hrest =>
        rw [visitsOfEntries, visitsOfEntries, Numbered.visits_eq value guard _ hvalue,
          Numbered.visitsOfEntries_eq rest guard path hothers hrest]

end

end Datum

/-! ### Merges -/

/-- **A document is numbered**: its locale stays, and its tree is numbered. -/
structure Document.Numbered (d d' : Document) : Prop where
  locale : d.locale = d'.locale
  tree : d.tree.Numbered d'.tree

namespace Catalogue

theorem addDocument_eq_of_numbered (compiler : Compiler) (guard : NestingGuard) (c : Catalogue)
    {d d' : Document} (h : d.Numbered d') :
    addDocument compiler guard c d = addDocument compiler guard c d' := by
  unfold addDocument
  rw [h.tree.isContainer_eq, h.locale, Datum.Numbered.visits_eq _ guard .root h.tree]

theorem addDocuments_eq_of_numbered (compiler : Compiler) (guard : NestingGuard)
    {documents others : List Document} (h : List.Forall₂ Document.Numbered documents others)
    (c : Catalogue) :
    addDocuments compiler guard c documents = addDocuments compiler guard c others := by
  induction h generalizing c with
  | nil => rfl
  | cons hd _ ih =>
    simp only [addDocuments, addDocument_eq_of_numbered compiler guard c hd, ih]

/-- **Numbered documents are merged alike**: with the same notices in the same order, and with the
same schema, nodes and all, or the same fault. The same holds of documents that are added to any
schema under any guard. -/
theorem merge_eq_of_numbered {documents others : List Document}
    (h : List.Forall₂ Document.Numbered documents others) (compiler : Compiler) :
    merge compiler documents = merge compiler others ∧
      ∀ (guard : NestingGuard) (c : Catalogue),
        addDocuments compiler guard c documents = addDocuments compiler guard c others := by
  have hadd : ∀ (guard : NestingGuard) (c : Catalogue),
      addDocuments compiler guard c documents = addDocuments compiler guard c others :=
    fun guard c => addDocuments_eq_of_numbered compiler guard h c
  refine ⟨?_, hadd⟩
  unfold merge
  rw [hadd]

/-- The root and a list in a list are written as mappings, another list is not. A number and a null
take up a position. -/
theorem merge_eq_of_numbered_nested :
    let documents : List Document :=
      [{ locale := "en", tree := .list
          [.text "A", .list [.number (.int 5), .null, .text "x \x7bn\x7d"]] },
        { locale := "de", tree := .list [.null, .list [.list [.text "y"]]] }]
    let others : List Document :=
      [{ locale := "en", tree := .map [(.text "0", .text "A"), (.text "1", .map
          [(.text "0", .number (.int 5)), (.text "1", .null), (.text "2", .text "x \x7bn\x7d")])] },
        { locale := "de", tree := .list [.null, .list [.map [(.text "0", .text "y")]]] }]
    List.Forall₂ Document.Numbered documents others ∧
      merge Template.compiler documents = merge Template.compiler others ∧
        ∀ (guard : NestingGuard) (c : Catalogue),
          addDocuments Template.compiler guard c documents =
            addDocuments Template.compiler guard c others := by
  intro documents others
  have hsame : ∀ items : List (Datum Foreign), List.Forall₂ Datum.Numbered items items :=
    fun items => List.forall₂_same.mpr fun item _ => .same item
  have h : List.Forall₂ Document.Numbered documents others := by
    refine .cons ⟨rfl, ?_⟩ (.cons ⟨rfl, ?_⟩ .nil)
    · exact .number (.cons (.same _) (.cons (.number (hsame _)) .nil))
    · exact .list (.cons (.same _) (.cons (.list (.cons (.number (hsame _)) .nil)) .nil))
  exact ⟨h, merge_eq_of_numbered h Template.compiler⟩

end Catalogue

end Phrasebook
