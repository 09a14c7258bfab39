import Mathlib.Data.List.Forall2
import Mathlib.Data.List.Sort
import Phrasebook.Proofs.Diagnostic.Report
import Phrasebook.Proofs.OrderedMap
import Phrasebook.Proofs.Template.Names
import Phrasebook.Schema.Merger

/-! # Documents with reworded texts

Documents are reworded if some of their texts are replaced by texts with the same signatures
(`Document.Reworded`). A merge then goes on alike, up to what the texts compile to: it fails in the
same way, or it gives the same tree, the same locales and the same signatures, in the same order
(`Catalogue.agree_merge_of_reworded`). For brace templates it is enough that the same names stand
for values and the same names for formatters (`Template.SameNames.agree`). -/

namespace Phrasebook

/-! ### Templates with the same names -/

namespace Template

variable {elements others : List Element}

/-- The signature depends on which names stand for values and which for formatters, not on their
order or number. -/
theorem signature_congr (hvalues : ∀ name, name ∈ valueNames elements ↔ name ∈ valueNames others)
    (hformatters : ∀ name, name ∈ formatterNames elements ↔ name ∈ formatterNames others) :
    signature elements = signature others := by
  have hcontains : (formatterNames elements).contains = (formatterNames others).contains := by
    funext name
    rw [Bool.eq_iff_iff, List.contains_iff_mem, List.contains_iff_mem]
    exact hformatters name
  have hclashes : clashes elements = clashes others := by
    unfold clashes
    rw [hcontains]
    refine (Sorted.pairwise_ofList _).eq_of_mem_iff (Sorted.pairwise_ofList _) fun name => ?_
    simp only [Sorted.mem_ofList, List.mem_filter, hvalues]
  have hnames : Sorted.ofList (valueNames elements ++ formatterNames elements) =
      Sorted.ofList (valueNames others ++ formatterNames others) := by
    refine (Sorted.pairwise_ofList _).eq_of_mem_iff (Sorted.pairwise_ofList _) fun name => ?_
    simp only [Sorted.mem_ofList, List.mem_append, hvalues, hformatters]
  have hsignature : Signature.ofNames (valueNames elements ++ formatterNames elements)
      (formatterNames elements) = Signature.ofNames (valueNames others ++ formatterNames others)
        (formatterNames others) := by
    unfold Signature.ofNames
    congr 2
    funext name
    rw [hcontains]
  unfold signature
  rw [hclashes, hsignature]

/-- **Two texts are templates with the same names**: the same ones stand for values, and the same
ones for formatters. -/
def SameNames (t u : Text) : Prop :=
  ∃ elements others, parse t = .ok elements ∧ parse u = .ok others ∧
    (∀ name, name ∈ valueNames elements ↔ name ∈ valueNames others) ∧
    ∀ name, name ∈ formatterNames elements ↔ name ∈ formatterNames others

/-- Templates with the same names compile to the same signature, or are refused alike. -/
theorem SameNames.agree {t u : Text} (h : SameNames t u) :
    Except.Agree (fun a b => a.signature = b.signature) (compiler t) (compiler u) := by
  obtain ⟨elements, others, ht, hu, hvalues, hformatters⟩ := h
  unfold compiler compile
  rw [ht, hu]
  simp only [Except.bind, compileElements, signature_congr hvalues hformatters]
  cases signature others with
  | ok s => exact .ok rfl
  | error fault => exact .error _

end Template

/-! ### Reworded documents -/

/-- **A tree is reworded**: some of its texts are replaced by related ones. -/
inductive Datum.Reworded (R : Text → Text → Prop) : Datum Foreign → Datum Foreign → Prop where
  | same (tree : Datum Foreign) : Reworded R tree tree
  | text {t u : Text} (h : R t u) : Reworded R (.text t) (.text u)
  | list {items others : List (Datum Foreign)} (h : List.Forall₂ (Reworded R) items others) :
      Reworded R (.list items) (.list others)
  | map {entries others : List (DatumKey × Datum Foreign)}
      (hkeys : entries.map (·.1) = others.map (·.1))
      (h : List.Forall₂ (Reworded R) (entries.map (·.2)) (others.map (·.2))) :
      Reworded R (.map entries) (.map others)

/-- A visit of a reworded tree. -/
inductive Visit.Reworded (R : Text → Text → Prop) : Visit → Visit → Prop where
  | same (v : Visit) : Reworded R v v
  | text {t u : Text} (path : KeyPath) (h : R t u) : Reworded R (.text path t) (.text path u)

/-- **A document is reworded**: its locale stays, and its tree is reworded. -/
structure Document.Reworded (R : Text → Text → Prop) (d d' : Document) : Prop where
  locale : d.locale = d'.locale
  tree : d.tree.Reworded R d'.tree

section Reworded
variable {R : Text → Text → Prop}

theorem Visit.forall₂_same (visits : List Visit) :
    List.Forall₂ (Visit.Reworded R) visits visits :=
  List.forall₂_same.mpr fun v _ => .same v

namespace Datum

theorem Reworded.isContainer_eq {tree other : Datum Foreign} (h : tree.Reworded R other) :
    tree.isContainer = other.isContainer := by
  cases h <;> rfl

mutual

/-- **The visits of a reworded tree** are those of the tree, with reworded texts. -/
theorem Reworded.visits : ∀ (tree : Datum Foreign) {other : Datum Foreign} (guard : NestingGuard)
    (path : KeyPath), tree.Reworded R other →
      List.Forall₂ (Visit.Reworded R) (tree.visits guard path) (other.visits guard path)
  | .text t, _, guard, path, h => by
    cases h with
    | same => exact Visit.forall₂_same _
    | text h =>
      rw [Datum.visits, Datum.visits]
      exact .cons (.text path h) .nil
  | .list items, _, guard, path, h => by
    cases h with
    | same => exact Visit.forall₂_same _
    | list h =>
      rw [Datum.visits, Datum.visits]
      cases guard.enter path.key with
      | error problem => exact Visit.forall₂_same _
      | ok inside => exact Reworded.visitsOfItems items inside path 0 h
  | .map entries, _, guard, path, h => by
    cases h with
    | same => exact Visit.forall₂_same _
    | map hkeys h =>
      rw [Datum.visits, Datum.visits]
      cases guard.enter path.key with
      | error problem => exact Visit.forall₂_same _
      | ok inside => exact Reworded.visitsOfEntries entries inside path hkeys h
  | .null, _, _, _, h | .bool _, _, _, _, h | .number _, _, _, _, h | .tuple _, _, _, _, h
  | .other _, _, _, _, h => by
    cases h
    exact Visit.forall₂_same _

theorem Reworded.visitsOfItems : ∀ (items : List (Datum Foreign)) {others : List (Datum Foreign)}
    (guard : NestingGuard) (path : KeyPath) (position : Nat),
      List.Forall₂ (Reworded R) items others →
        List.Forall₂ (Visit.Reworded R) (Datum.visitsOfItems guard path position items)
          (Datum.visitsOfItems guard path position others)
  | [], _, guard, path, position, h => by
    cases h
    exact Visit.forall₂_same _
  | item :: rest, _, guard, path, position, h => by
    cases h with
    | cons hitem hrest =>
      rw [Datum.visitsOfItems, Datum.visitsOfItems]
      exact List.rel_append (Reworded.visits item guard _ hitem)
        (Reworded.visitsOfItems rest guard path _ hrest)

theorem Reworded.visitsOfEntries : ∀ (entries : List (DatumKey × Datum Foreign))
    {others : List (DatumKey × Datum Foreign)} (guard : NestingGuard) (path : KeyPath),
      entries.map (·.1) = others.map (·.1) →
        List.Forall₂ (Reworded R) (entries.map (·.2)) (others.map (·.2)) →
          List.Forall₂ (Visit.Reworded R) (Datum.visitsOfEntries guard path entries)
            (Datum.visitsOfEntries guard path others)
  | [], others, guard, path, hkeys, _ => by
    cases others with
    | nil => exact Visit.forall₂_same _
    | cons entry rest => cases hkeys
  | (key, value) :: rest, others, guard, path, hkeys, h => by
    cases others with
    | nil => cases hkeys
    | cons entry others =>
      obtain ⟨rfl, hothers⟩ := List.cons.inj hkeys
      cases h with
      | cons hvalue hrest =>
        rw [Datum.visitsOfEntries, Datum.visitsOfEntries]
        exact List.rel_append (Reworded.visits value guard _ hvalue)
          (Reworded.visitsOfEntries rest guard path hothers hrest)

end

end Datum

end Reworded

namespace Catalogue

/-! ### Parallel catalogues -/

/-- The keys with their paths and signatures, without what the texts compile to. -/
def frames (c : Catalogue) : OrderedMap Text (KeyPath × Signature) :=
  c.entries.map fun entry => (entry.1, entry.2.path, entry.2.signature)

/-- **Two catalogues are parallel**: they differ at most in what the texts compile to. -/
structure Parallel (c c' : Catalogue) : Prop where
  arena : c.arena = c'.arena
  locales : c.locales = c'.locales
  frames : c.frames = c'.frames

theorem Parallel.refl (c : Catalogue) : c.Parallel c := ⟨rfl, rfl, rfl⟩

theorem get?_frames (c : Catalogue) (key : Text) :
    c.frames.get? key = (c.entries.get? key).map fun e => (e.path, e.signature) :=
  OrderedMap.get?_map_value (fun e : Entry => (e.path, e.signature)) key c.entries

theorem frames_put (entries : OrderedMap Text Entry) (key : Text) (e : Entry) :
    (entries.put key e).map (fun entry => (entry.1, entry.2.path, entry.2.signature)) =
      OrderedMap.put key (e.path, e.signature)
        (entries.map fun entry => (entry.1, entry.2.path, entry.2.signature)) :=
  OrderedMap.map_value_put (fun e : Entry => (e.path, e.signature)) key e entries

section Parallel
variable {c c' : Catalogue} (h : c.Parallel c')
include h

/-- At each key parallel catalogues have both nothing, or entries with the same path and the same
signature. -/
theorem Parallel.get? (key : Text) :
    (c.entries.get? key = none ∧ c'.entries.get? key = none) ∨
      ∃ e e', c.entries.get? key = some e ∧ c'.entries.get? key = some e' ∧
        e.path = e'.path ∧ e.signature = e'.signature := by
  have hframe := congrArg (OrderedMap.get? key) h.frames
  rw [get?_frames, get?_frames] at hframe
  cases he : c.entries.get? key with
  | none =>
    rw [he, Option.map_none, eq_comm, Option.map_eq_none_iff] at hframe
    exact .inl ⟨rfl, hframe⟩
  | some e =>
    rw [he, Option.map_some, eq_comm, Option.map_eq_some_iff] at hframe
    obtain ⟨e', he', hsame⟩ := hframe
    obtain ⟨hpath, hsignature⟩ := Prod.mk.inj hsame
    exact .inr ⟨e, e', rfl, he', hpath.symm, hsignature.symm⟩

/-- Entries with the same path and the same signature put under a key. -/
theorem Parallel.put (arena : Arena) (key : Text) {e e' : Entry} (hpath : e.path = e'.path)
    (hsignature : e.signature = e'.signature) :
    Parallel { c with arena, entries := c.entries.put key e }
      { c' with arena, entries := c'.entries.put key e' } := by
  refine ⟨rfl, h.locales, ?_⟩
  show (c.entries.put key e).map _ = (c'.entries.put key e').map _
  rw [frames_put, frames_put, hpath, hsignature]
  exact congrArg (OrderedMap.put key _) h.frames

variable {compiler : Compiler} {t u : Text}
  (hcompiled : Except.Agree (fun a b => a.signature = b.signature) (compiler t) (compiler u))
include hcompiled

omit h in
theorem agree_compileText_of_agree (key locale : Text) :
    Except.Agree (fun a b => a.signature = b.signature)
      (compileText compiler key locale t).outcome (compileText compiler key locale u).outcome := by
  unfold compileText
  generalize compiler t = first at hcompiled
  generalize compiler u = second at hcompiled
  cases hcompiled with
  | ok hsame => exact .ok hsame
  | error fault => cases fault <;> exact .error _

theorem Parallel.define (arena : Arena) (parent : Nat) (segment : Segment) (path : KeyPath)
    (locale : Text) :
    Except.Agree Parallel (define compiler c arena parent segment path locale t).outcome
      (Catalogue.define compiler c' arena parent segment path locale u).outcome := by
  unfold Catalogue.define
  rcases h.get? path.key with ⟨hkey, hkey'⟩ | ⟨e, e', hkey, hkey', -, -⟩
  · simp only [hkey, hkey', Report.outcome_bind]
    refine (agree_compileText_of_agree hcompiled path.key locale).bind fun a b hsame => ?_
    simp only [hsame]
    exact .ok (h.put _ _ rfl rfl)
  · simp only [hkey, hkey']
    exact .error _

theorem Parallel.extend (arena : Arena) {e e' : Entry} (hpath : e.path = e'.path)
    (hsignature : e.signature = e'.signature) (locale : Text) :
    Except.Agree Parallel (extend compiler c arena e locale t).outcome
      (Catalogue.extend compiler c' arena e' locale u).outcome := by
  have hkey : e.key = e'.key := congrArg KeyPath.key hpath
  unfold Catalogue.extend
  simp only [Report.outcome_bind, hkey, hsignature]
  refine (agree_compileText_of_agree hcompiled e'.key locale).bind fun a b hsame => ?_
  simp only [hsame]
  split
  · exact .ok (h.put arena e'.key hpath hsignature)
  · exact .error _

/-- **A reworded text is accepted by parallel catalogues, or refused by both alike.** -/
theorem Parallel.addText (path : KeyPath) (locale : Text) :
    Except.Agree Parallel (c.addText compiler path locale t).outcome
      (c'.addText compiler path locale u).outcome := by
  unfold Catalogue.addText
  cases path.segments.getLast? with
  | none => exact .error _
  | some segment =>
    simp only [h.arena]
    cases descend c'.arena Arena.root [] path.parent.segments with
    | error leaf => exact .error _
    | ok found =>
      obtain ⟨arena, parent⟩ := found
      cases hnode : (arena.child? parent segment).bind arena.node? with
      | none =>
        simp only [hnode]
        exact h.define hcompiled arena parent segment path locale
      | some n =>
        simp only [hnode]
        cases n with
        | interior at_ children => exact .error _
        | leaf at_ =>
          rcases h.get? path.key with ⟨hkey, hkey'⟩ | ⟨e, e', hkey, hkey', hpath, hsignature⟩
          · simp only [hkey, hkey']
            exact h.define hcompiled arena parent segment path locale
          · simp only [hkey, hkey']
            exact h.extend hcompiled arena hpath hsignature locale

end Parallel

/-! ### Adding reworded documents -/

section Documents
variable {R : Text → Text → Prop} {compiler : Compiler}
  (hR : ∀ t u, R t u →
    Except.Agree (fun a b => a.signature = b.signature) (compiler t) (compiler u))
include hR

theorem Parallel.addVisits {visits others : List Visit} (locale : Text)
    (hvisits : List.Forall₂ (Visit.Reworded R) visits others) :
    ∀ {c c' : Catalogue} (count : Nat), c.Parallel c' →
      Except.Agree (fun a b => a.1.Parallel b.1) (addVisits compiler locale c count visits).outcome
        (Catalogue.addVisits compiler locale c' count others).outcome := by
  have hsame : ∀ t : Text,
      Except.Agree (fun a b => a.signature = b.signature) (compiler t) (compiler t) := by
    intro t
    cases compiler t with
    | ok compiled => exact .ok rfl
    | error fault => exact .error _
  induction hvisits with
  | nil =>
    intro c c' count h
    exact .ok h
  | @cons visit other visits others hvisit _ ih =>
    intro c c' count h
    cases hvisit with
    | text path hreworded =>
      simp only [Catalogue.addVisits, Report.outcome_bind]
      exact (h.addText (hR _ _ hreworded) path locale).bind fun _ _ hnext => ih _ hnext
    | same =>
      cases visit with
      | text path t =>
        simp only [Catalogue.addVisits, Report.outcome_bind]
        exact (h.addText (hsame t) path locale).bind fun _ _ hnext => ih _ hnext
      | skipped path typeName => exact ih _ h
      | refused problem => exact .error _

theorem Parallel.addDocument {c c' : Catalogue} (h : c.Parallel c') (guard : NestingGuard)
    {d d' : Document} (hd : d.Reworded R d') :
    Except.Agree Parallel (addDocument compiler guard c d).outcome
      (Catalogue.addDocument compiler guard c' d').outcome := by
  unfold Catalogue.addDocument
  rw [← hd.tree.isContainer_eq, ← hd.locale]
  split
  · have hstarted : Parallel { c with locales := c.locales ++ [d.locale] }
        { c' with locales := c'.locales ++ [d.locale] } :=
      ⟨h.arena, congrArg (· ++ [d.locale]) h.locales, h.frames⟩
    simp only [Report.outcome_bind]
    exact (hstarted.addVisits hR d.locale (Datum.Reworded.visits _ guard .root hd.tree) 0).bind
      fun _ _ hnext => .ok hnext
  · exact .error _

/-- **Reworded documents are merged alike, or refused alike.** -/
theorem Parallel.addDocuments (guard : NestingGuard) {documents documents' : List Document}
    (hdocuments : List.Forall₂ (Document.Reworded R) documents documents') :
    ∀ {c c' : Catalogue}, c.Parallel c' →
      Except.Agree Parallel (addDocuments compiler guard c documents).outcome
        (Catalogue.addDocuments compiler guard c' documents').outcome := by
  induction hdocuments with
  | nil =>
    intro c c' h
    exact .ok h
  | cons hd _ ih =>
    intro c c' h
    simp only [Catalogue.addDocuments, Report.outcome_bind]
    exact (h.addDocument hR guard hd).bind fun _ _ hnext => ih hnext

/-- Reworded documents have parallel catalogues. -/
theorem agree_merge_of_reworded {documents documents' : List Document}
    (hdocuments : List.Forall₂ (Document.Reworded R) documents documents') :
    Except.Agree Parallel (merge compiler documents).outcome
      (merge compiler documents').outcome := by
  unfold merge
  simp only [Report.outcome_bind]
  exact ((Parallel.refl {}).addDocuments hR _ hdocuments).bind fun _ _ hnext => .ok hnext

end Documents

end Catalogue

end Phrasebook
