import Phrasebook.Proofs.Document.Subtree
import Phrasebook.Proofs.Schema.Merger
import Phrasebook.Proofs.Schema.Values

/-! # The translations of documents

A merge adds the texts of all documents one after the other, each with the locale of its document
and its path (`Document.translations`, `translationsOf`). What is true before the first of them and
stays true with each that is accepted is true of the merged catalogue and of all translations
(`addDocuments_translations`). -/

namespace Phrasebook

/-- **A text of a locale at a path.** -/
structure Translation where
  locale : Text
  path : KeyPath
  text : Text
deriving DecidableEq

/-- The texts of a document with their paths, depth first and in order. -/
def Document.translations (d : Document) : List Translation :=
  (Ledger.texts (d.tree.subtrees .root)).map fun (path, text) => ⟨d.locale, path, text⟩

/-- **The texts of documents**, one document after the other. -/
def translationsOf (documents : List Document) : List Translation :=
  documents.flatMap Document.translations

theorem Document.mem_translations {d : Document} {t : Translation} :
    t ∈ d.translations ↔ t.locale = d.locale ∧ d.tree.At t.path.segments (.text t.text) := by
  have hat : (t.path, t.text) ∈ Ledger.texts (d.tree.subtrees .root) ↔
      d.tree.At t.path.segments (.text t.text) := by
    rw [Ledger.mem_texts, Datum.mem_subtrees_root]
  rw [← hat, translations, List.mem_map]
  constructor
  · rintro ⟨⟨path, text⟩, hmem, rfl⟩
    exact ⟨rfl, hmem⟩
  · rintro ⟨hlocale, hmem⟩
    refine ⟨_, hmem, ?_⟩
    cases t
    cases hlocale
    rfl

theorem mem_translationsOf {documents : List Document} {t : Translation} :
    t ∈ translationsOf documents ↔
      ∃ d ∈ documents, t.locale = d.locale ∧ d.tree.At t.path.segments (.text t.text) := by
  unfold translationsOf
  simp only [List.mem_flatMap, Document.mem_translations]

/-! ### The texts on a walk -/

/-- The texts among the visits of a walk. -/
def Visit.texts (visits : List Visit) : List (KeyPath × Text) :=
  visits.filterMap fun
    | .text path value => some (path, value)
    | _ => none

/-- No visit of a walk was refused. -/
def Visit.Complete (visits : List Visit) : Prop := ∀ problem, Visit.refused problem ∉ visits

theorem Visit.texts_append (xs ys : List Visit) : texts (xs ++ ys) = texts xs ++ texts ys :=
  List.filterMap_append

theorem Visit.complete_append {xs ys : List Visit} :
    Complete (xs ++ ys) ↔ Complete xs ∧ Complete ys := by
  unfold Complete
  simp only [List.mem_append, not_or, forall_and]

namespace Datum

mutual

/-- **The texts on a complete walk** are those in the tree. -/
theorem texts_visits : ∀ (tree : Datum Foreign) (guard : NestingGuard) (path : KeyPath),
    Visit.Complete (tree.visits guard path) →
      Visit.texts (tree.visits guard path) = Ledger.texts (tree.subtrees path)
  | .map entries, guard, path, h => by
    rw [visits] at h ⊢
    rw [subtrees]
    cases henter : guard.enter path.key with
    | error problem =>
      rw [henter] at h
      exact absurd List.mem_cons_self (h problem)
    | ok inside =>
      rw [henter] at h
      exact texts_visitsOfEntries entries inside path h
  | .list items, guard, path, h => by
    rw [visits] at h ⊢
    rw [subtrees]
    cases henter : guard.enter path.key with
    | error problem =>
      rw [henter] at h
      exact absurd List.mem_cons_self (h problem)
    | ok inside =>
      rw [henter] at h
      exact texts_visitsOfItems items inside path 0 h
  | .text _, _, _, _ | .null, _, _, _ | .bool _, _, _, _ | .number _, _, _, _
  | .tuple _, _, _, _ | .other _, _, _, _ => by
    rw [visits, subtrees_of_not_container rfl]
    rfl

theorem texts_visitsOfItems : ∀ (items : List (Datum Foreign)) (guard : NestingGuard)
    (path : KeyPath) (position : Nat), Visit.Complete (visitsOfItems guard path position items) →
      Visit.texts (visitsOfItems guard path position items) =
        Ledger.texts (subtreesOfItems path position items)
  | [], guard, path, position, _ => by
    rw [visitsOfItems, subtreesOfItems]
    rfl
  | item :: rest, guard, path, position, h => by
    rw [visitsOfItems, Visit.complete_append] at h
    rw [visitsOfItems, subtreesOfItems, Visit.texts_append, Ledger.texts_append,
      texts_visits item guard _ h.1, texts_visitsOfItems rest guard path _ h.2]

theorem texts_visitsOfEntries : ∀ (entries : List (DatumKey × Datum Foreign))
    (guard : NestingGuard) (path : KeyPath), Visit.Complete (visitsOfEntries guard path entries) →
      Visit.texts (visitsOfEntries guard path entries) =
        Ledger.texts (subtreesOfEntries path entries)
  | [], guard, path, _ => by
    rw [visitsOfEntries, subtreesOfEntries]
    rfl
  | (key, value) :: rest, guard, path, h => by
    rw [visitsOfEntries, Visit.complete_append] at h
    rw [visitsOfEntries, subtreesOfEntries, Visit.texts_append, Ledger.texts_append,
      texts_visits value guard _ h.1, texts_visitsOfEntries rest guard path h.2]

end

end Datum

/-! ### Adding translations -/

namespace Catalogue

section Induction
variable {compiler : Compiler} {P : List Translation → Catalogue → Prop}
  (locales : ∀ {past : List Translation} {c : Catalogue} (l : List Text), P past c →
    P past { c with locales := l })
  (text : ∀ {past : List Translation} {c c' : Catalogue} {t : Translation}, P past c →
    (c.addText compiler t.path t.locale t.text).outcome = .ok c' → P (past ++ [t]) c')
include text

theorem addVisits_translations {past : List Translation} {c : Catalogue} (hc : P past c)
    {locale : Text} {visits : List Visit} {count : Nat} {c' : Catalogue} {count' : Nat}
    (h : (addVisits compiler locale c count visits).outcome = .ok (c', count')) :
    Visit.Complete visits ∧
      P (past ++ (Visit.texts visits).map fun (path, text) => ⟨locale, path, text⟩) c' := by
  induction visits generalizing past c count with
  | nil =>
    cases h
    refine ⟨nofun, ?_⟩
    rwa [Visit.texts, List.filterMap_nil, List.map_nil, List.append_nil]
  | cons visit rest ih =>
    cases visit with
    | text path value =>
      simp only [addVisits, Report.outcome_bind, Except.bind_eq_ok] at h
      obtain ⟨next, hnext, h⟩ := h
      obtain ⟨hcomplete, hrest⟩ := ih (text (t := ⟨locale, path, value⟩) hc hnext) h
      rw [List.append_assoc] at hrest
      exact ⟨fun problem hmem => hcomplete problem (by simpa using hmem), hrest⟩
    | skipped path typeName =>
      obtain ⟨hcomplete, hrest⟩ := ih hc h
      exact ⟨fun problem hmem => hcomplete problem (by simpa using hmem), hrest⟩
    | refused problem => cases h

include locales

theorem addDocument_translations {guard : NestingGuard} {past : List Translation} {c : Catalogue}
    (hc : P past c) {document : Document} {c' : Catalogue}
    (h : (addDocument compiler guard c document).outcome = .ok c') :
    P (past ++ document.translations) c' := by
  unfold addDocument at h
  split at h
  · simp only [Report.outcome_bind, Except.bind_eq_ok] at h
    obtain ⟨⟨merged, count⟩, hvisits, -, -, hmerged⟩ := h
    cases hmerged
    obtain ⟨hcomplete, hP⟩ := addVisits_translations text (locales _ hc) hvisits
    rwa [Datum.texts_visits _ _ _ hcomplete] at hP
  · cases h

/-- **What accepted translations keep** holds of the catalogue and all translations. -/
theorem addDocuments_translations {guard : NestingGuard} {documents : List Document}
    {past : List Translation} {c : Catalogue} (hc : P past c) {c' : Catalogue}
    (h : (addDocuments compiler guard c documents).outcome = .ok c') :
    P (past ++ translationsOf documents) c' := by
  induction documents generalizing past c with
  | nil =>
    cases h
    rwa [translationsOf, List.flatMap_nil, List.append_nil]
  | cons document rest ih =>
    simp only [addDocuments, Report.outcome_bind, Except.bind_eq_ok] at h
    obtain ⟨next, hnext, h⟩ := h
    have hrest := ih (addDocument_translations locales text hc hnext) h
    rwa [List.append_assoc] at hrest

end Induction

end Catalogue

end Phrasebook
