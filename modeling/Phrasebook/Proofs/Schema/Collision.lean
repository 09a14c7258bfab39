import Phrasebook.Proofs.Document.Accessor
import Phrasebook.Proofs.Document.Written
import Phrasebook.Proofs.Schema.Refusal

/-! # What tells paths apart

The accessor of a path tells it from all others that have one, and its key does so among the paths
whose steps are names without points (`KeyPath.accessor_identifies`). The paths of a document have
such steps if none of its properties is named with a point (`Datum.At.undotted`), so keys can only
collide where one is. -/

namespace Phrasebook

namespace Datum

/-- **A property of a mapping in the tree** is named with a point. -/
def HasDottedName (tree : Datum Foreign) : Prop :=
  ∃ steps entries, tree.At steps (.map entries) ∧
    ∃ entry ∈ entries, CodePoint.ofChar '.' ∈ entry.1.toText

theorem HasDottedName.item {items : List (Datum Foreign)} {position : Nat} {item : Datum Foreign}
    (hitem : items[position]? = some item) (h : item.HasDottedName) :
    HasDottedName (.list items) := by
  obtain ⟨steps, entries, hat, hdotted⟩ := h
  exact ⟨_, entries, .item hitem hat, hdotted⟩

theorem HasDottedName.entry {entries : List (DatumKey × Datum Foreign)} {key : DatumKey}
    {child : Datum Foreign} (hentry : (key, child) ∈ entries) (h : child.HasDottedName) :
    HasDottedName (.map entries) := by
  obtain ⟨steps, inner, hat, hdotted⟩ := h
  exact ⟨_, inner, .entry hentry hat, hdotted⟩

/-- **Steps in a tree have no points** if no property is named with one. -/
theorem At.undotted {tree value : Datum Foreign} {steps : List Segment} (h : tree.At steps value)
    (hnames : ¬tree.HasDottedName) : KeyPath.Undotted ⟨steps⟩ := by
  unfold KeyPath.Undotted
  induction h with
  | here tree => exact List.forall_mem_nil _
  | @item items position item value steps hitem h ih =>
    refine List.forall_mem_cons.mpr ⟨⟨_, rfl, ?_⟩, ih fun hdotted => hnames (hdotted.item hitem)⟩
    intro hpoint
    cases Json.isDigit_of_mem_ofNat hpoint
  | @entry entries key child value steps hentry h ih =>
    refine List.forall_mem_cons.mpr ⟨⟨_, rfl, ?_⟩, ih fun hdotted => hnames (hdotted.entry hentry)⟩
    intro hpoint
    exact hnames ⟨[], entries, .here _, (key, child), hentry, hpoint⟩

end Datum

namespace Catalogue

variable {compiler : Compiler} {documents : List Document} {key locale : Text}

theorem exists_dotted_of_key_eq {p q : KeyPath} {t u : Text} (hp : Ledger.TextOf documents p t)
    (hq : Ledger.TextOf documents q u) (hkey : p.key = q.key) (hne : p ≠ q) :
    ∃ d ∈ documents, d.tree.HasDottedName := by
  by_contra hnone
  have hundotted : ∀ {r : KeyPath} {v : Text}, Ledger.TextOf documents r v → r.Undotted := by
    rintro r v ⟨d, hd, -, hat⟩
    exact hat.undotted fun hdotted => hnone ⟨d, hd, hdotted⟩
  exact hne (KeyPath.eq_of_key_eq hp.ne_root hq.ne_root (hundotted hp) (hundotted hq) hkey)

theorem exists_dotted_of_collision
    (h : (merge compiler documents).outcome = .error (.problem (.keyCollision key locale))) :
    ∃ d ∈ documents, d.tree.HasDottedName := by
  cases refusesDocuments_of_merge h with
  | text hd hroot hat hl hrefuses =>
    cases hrefuses with
    | collision hmem hne hkey =>
      obtain ⟨s, hs⟩ := OrderedMap.exists_mem hmem
      obtain ⟨t, hq, -⟩ := hl _ hs
      exact exists_dotted_of_key_eq hq ⟨_, hd, hroot, hat⟩ hkey hne

end Catalogue

namespace KeyPath

theorem Undotted.writable {p : KeyPath} (h : p.Undotted) : p.Writable := by
  refine writable_of_names fun s hs => ?_
  obtain ⟨name, hname, -⟩ := h s hs
  exact ⟨name, hname⟩

theorem read?_of_writeAccessor {p : KeyPath} {t : Text} (h : p.writeAccessor = .ok t) :
    read? t = some p := by
  obtain ⟨-, rfl⟩ := writeAccessor_eq_ok h
  exact read?_accessor p

theorem eq_of_writeAccessor_eq {p q : KeyPath} {t : Text} (hp : p.writeAccessor = .ok t)
    (hq : q.writeAccessor = .ok t) : p = q := by
  have hread := read?_of_writeAccessor hp
  rw [read?_of_writeAccessor hq] at hread
  exact (Option.some.inj hread).symm

/-- **What tells paths apart.** A path has an accessor and a key unless one of its indices has too
many digits to be written. The accessor is read back as the path, so that it tells the path from all
others; a name and an index with one text have two accessors. A path of names always has a key,
which tells the path from other paths that are not the root if no name of theirs has a point. So a
merge only finds two paths under one key if some property of a document is named with a point. -/
theorem accessor_identifies :
    (∀ p : KeyPath, p.Writable → ∃ t, p.writeAccessor = .ok t ∧ read? t = some p) ∧
      (∀ (p : KeyPath) (c : Crash),
        (p.writeAccessor = .error c ↔ c = .integerUnwritable ∧ ¬p.Writable) ∧
          (p.writeKey = .error c ↔ c = .integerUnwritable ∧ ¬p.Writable)) ∧
        (∀ (p q : KeyPath) (t : Text),
          p.writeAccessor = .ok t → q.writeAccessor = .ok t → p = q) ∧
          (∀ (p : KeyPath) (n : Int) (t : Text), (p.child (.index n)).writeAccessor = .ok t →
            (p.child (.name (Numeral.ofInt n))).writeAccessor ≠ .ok t) ∧
            (∀ p : KeyPath, (∀ s ∈ p.segments, ∃ name, s = .name name) →
              p.writeKey = .ok p.key) ∧
              (∀ p q : KeyPath, p ≠ .root → q ≠ .root → p.Undotted → q.Undotted →
                p.writeKey = q.writeKey → p = q) ∧
                ∀ (compiler : Compiler) (documents : List Document) (key locale : Text),
                  (Catalogue.merge compiler documents).outcome =
                    .error (.problem (.keyCollision key locale)) →
                    ∃ d ∈ documents, d.tree.HasDottedName := by
  refine ⟨fun p hp => ?_, fun p c => ⟨writeAccessor_eq_error, writeKey_eq_error⟩,
    fun p q t => eq_of_writeAccessor_eq, fun p n t hindex hname => ?_,
    fun p hnames => writeKey_of_writable (writable_of_names hnames),
    fun p q hp hq hpu hqu heq => ?_,
    fun compiler documents key locale => Catalogue.exists_dotted_of_collision⟩
  · have haccessor := writeAccessor_of_writable hp
    exact ⟨_, haccessor, read?_of_writeAccessor haccessor⟩
  · have hsegments := congrArg segments (eq_of_writeAccessor_eq hindex hname)
    rw [segments_child, segments_child, List.append_cancel_left_eq] at hsegments
    cases hsegments
  · rw [writeKey_of_writable hpu.writable, writeKey_of_writable hqu.writable] at heq
    exact eq_of_key_eq hp hq hpu hqu (Except.ok.inj heq)

end KeyPath

/-- A path with an index; and a property that is named with a point, which gets the key of a path
through another property. -/
theorem KeyPath.accessor_identifies_dotted :
    let documents : List Document :=
      [{ locale := "en", tree := .map [(.text "a", .map [(.text "b", .text "x")]),
          (.text "a.b", .text "y")] }]
    let p : KeyPath := ⟨[.name "a", .name "b"]⟩
    let q : KeyPath := p.parent.child (.name "b")
    let r : KeyPath := p.child (.index (-7))
    (r.Writable ∧ ∃ t, r.writeAccessor = .ok t ∧ read? t = some r) ∧
      (p ≠ .root ∧ q ≠ .root ∧ p.Undotted ∧ q.Undotted ∧ p.writeKey = q.writeKey ∧ p = q) ∧
        (Catalogue.merge Template.compiler documents).outcome =
          .error (.problem (.keyCollision "a.b" "en")) ∧
          ∃ d ∈ documents, d.tree.HasDottedName := by
  intro documents p q r
  obtain ⟨haccessors, -, -, -, -, hkeys, hcollisions⟩ := KeyPath.accessor_identifies
  have hwritable : r.Writable := by
    refine List.forall_mem_cons.mpr ⟨trivial, List.forall_mem_cons.mpr ⟨trivial, ?_⟩⟩
    exact List.forall_mem_singleton.mpr (by decide : Numeral.Writable (-7))
  have hundotted : p.Undotted :=
    List.forall_mem_cons.mpr ⟨⟨"a", rfl, by decide⟩,
      List.forall_mem_singleton.mpr ⟨"b", rfl, by decide⟩⟩
  have hmerge : (Catalogue.merge Template.compiler documents).outcome =
      .error (.problem (.keyCollision "a.b" "en")) := by cbv
  have hp : p ≠ .root := by decide
  have hq : q ≠ .root := by decide
  exact ⟨⟨hwritable, haccessors r hwritable⟩,
    ⟨hp, hq, hundotted, hundotted, rfl, hkeys p q hp hq hundotted hundotted rfl⟩, hmerge,
    hcollisions Template.compiler documents "a.b" "en" hmerge⟩

end Phrasebook
