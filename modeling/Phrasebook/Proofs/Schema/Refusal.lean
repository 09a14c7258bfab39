import Phrasebook.Proofs.Schema.Consistency

/-! # Why documents are refused

A ledger refuses a text for what it holds or because the text does not compile (`Ledger.Refuses`).
All that it holds comes from texts of the documents (`Ledger.DrawnFrom`), so a merge that fails does
so for something in its documents (`Catalogue.refusesDocuments_of_merge`). -/

namespace Phrasebook

namespace Ledger

/-- A text of documents: it stands at a path in one of them, below a mapping or a list. -/
def TextOf (documents : List Document) (path : KeyPath) (t : Text) : Prop :=
  ∃ d ∈ documents, d.tree.isContainer = true ∧ d.tree.At path.segments (.text t)

theorem TextOf.ne_root {documents : List Document} {path : KeyPath} {t : Text}
    (h : TextOf documents path t) : path ≠ .root := by
  obtain ⟨d, -, hroot, hat⟩ := h
  exact ne_root_of_at hroot hat

/-- **A ledger is drawn from documents**: its paths are those of texts of the documents, which have
their signatures. -/
def DrawnFrom (compiler : Compiler) (documents : List Document) (l : Ledger) : Prop :=
  ∀ x ∈ l, ∃ t, TextOf documents x.1 t ∧ Compiles compiler t x.2

/-- **The reasons to refuse documents**, each with its failure. -/
inductive RefusesDocuments (compiler : Compiler) (limit : Int) (documents : List Document) :
    Fault → Prop where
  | root {d : Document} (hd : d ∈ documents) (hroot : d.tree.isContainer = false) :
      RefusesDocuments compiler limit documents (.problem (.rootMismatch d.locale))
  | nesting {d : Document} {path : KeyPath} {value : Datum Foreign} (hd : d ∈ documents)
      (hat : d.tree.At path.segments value) (hcontainer : value.isContainer = true)
      (hdeep : limit ≤ path.depth) :
      RefusesDocuments compiler limit documents (.problem (.depthExceeded limit path.key))
  | text {d : Document} {l : Ledger} {path : KeyPath} {value : Text} {f : Fault}
      (hd : d ∈ documents) (hroot : d.tree.isContainer = true)
      (hat : d.tree.At path.segments (.text value)) (hl : DrawnFrom compiler documents l)
      (h : Refuses compiler l d.locale path value f) :
      RefusesDocuments compiler limit documents f

section Documents
variable {compiler : Compiler} {limit : Int} {documents : List Document} {d : Document}
  {l l' : Ledger} {f : Fault}

theorem DrawnFrom.nil : DrawnFrom compiler documents [] := List.forall_mem_nil _

/-- Texts of the documents that are accepted leave a ledger that is drawn from them. -/
theorem DrawnFrom.admitsAll {xs : List (KeyPath × Text)}
    (hxs : ∀ x ∈ xs, TextOf documents x.1 x.2) (hl : DrawnFrom compiler documents l)
    (h : AdmitsAll compiler l xs l') : DrawnFrom compiler documents l' := by
  induction xs generalizing l with
  | nil =>
    obtain rfl := h
    exact hl
  | cons x rest ih =>
    obtain ⟨m, ⟨s, hs, hcompatible, rfl⟩, hrest⟩ := h
    obtain ⟨hx, hothers⟩ := List.forall_mem_cons.mp hxs
    refine ih hothers (fun y hy => ?_) hrest
    rcases (mem_join hcompatible).mp hy with hold | rfl
    · exact hl y hold
    · exact ⟨x.2, hx, hs⟩

section Tree
variable (hd : d ∈ documents) (hroot : d.tree.isContainer = true)
include hd hroot

theorem textOf_of_mem_texts {values : List (KeyPath × Datum Foreign)}
    (hvalues : ∀ x ∈ values, d.tree.At x.1.segments x.2) :
    ∀ x ∈ texts values, TextOf documents x.1 x.2 :=
  fun _ hx => ⟨d, hd, hroot, hvalues _ (mem_texts.mp hx)⟩

theorem refusesDocuments_of_acceptValue (hl : DrawnFrom compiler documents l)
    {x : KeyPath × Datum Foreign} (hat : d.tree.At x.1.segments x.2)
    (h : acceptValue compiler limit d.locale l x = .error f) :
    RefusesDocuments compiler limit documents f := by
  unfold acceptValue at h
  split at h
  next path value => exact .text hd hroot hat hl (refuses_of_accept h)
  next path value _ =>
    split_ifs at h with hdeep
    cases h
    exact .nesting hd hat hdeep.1 hdeep.2

theorem refusesDocuments_of_acceptValues {values : List (KeyPath × Datum Foreign)}
    (hvalues : ∀ x ∈ values, d.tree.At x.1.segments x.2) (hconsonant : l.Consonant)
    (hl : DrawnFrom compiler documents l)
    (h : acceptValues compiler limit d.locale l values = .error f) :
    RefusesDocuments compiler limit documents f := by
  induction values generalizing l with
  | nil => cases h
  | cons x rest ih =>
    rw [acceptValues, Except.bind_eq_error] at h
    obtain ⟨hat, hothers⟩ := List.forall_mem_cons.mp hvalues
    rcases h with h | ⟨m, hm, h⟩
    · exact refusesDocuments_of_acceptValue hd hroot hl hat h
    · obtain ⟨-, htexts⟩ := (acceptValue_eq_ok hconsonant x).mp hm
      have hx := textOf_of_mem_texts hd hroot (List.forall_mem_singleton.mpr hat)
      exact ih hothers (htexts.consonant hconsonant) (hl.admitsAll hx htexts) h

end Tree

theorem refusesDocuments_of_acceptDocument (hd : d ∈ documents) (hconsonant : l.Consonant)
    (hl : DrawnFrom compiler documents l)
    (h : acceptDocument compiler limit l d = .error f) :
    RefusesDocuments compiler limit documents f := by
  unfold acceptDocument at h
  split_ifs at h with hroot
  · have htree := acceptTree_eq_acceptValues compiler limit d.locale d.tree .root l
    exact refusesDocuments_of_acceptValues hd hroot (fun _ => Datum.mem_subtrees_root.mp)
      hconsonant hl (htree ▸ h)
  · cases h
    exact .root hd (Bool.eq_false_iff.mpr hroot)

/-- **Documents that are not accepted** are refused for something that stands in them. -/
theorem refusesDocuments_of_acceptDocuments {rest : List Document}
    (hrest : ∀ d ∈ rest, d ∈ documents) (hconsonant : l.Consonant)
    (hl : DrawnFrom compiler documents l)
    (h : acceptDocuments compiler limit l rest = .error f) :
    RefusesDocuments compiler limit documents f := by
  induction rest generalizing l with
  | nil => cases h
  | cons d rest ih =>
    rw [acceptDocuments, Except.bind_eq_error] at h
    obtain ⟨hd, hothers⟩ := List.forall_mem_cons.mp hrest
    rcases h with h | ⟨m, hm, h⟩
    · exact refusesDocuments_of_acceptDocument hd hconsonant hl h
    · obtain ⟨hroot, -, htexts⟩ := (acceptDocument_eq_ok hconsonant).mp hm
      have hx := textOf_of_mem_texts hd hroot (fun _ => Datum.mem_subtrees_root.mp)
      exact ih hothers (htexts.consonant hconsonant) (hl.admitsAll hx htexts) h

end Documents

end Ledger

/-- **A merge that fails** refuses its documents. -/
theorem Catalogue.refusesDocuments_of_merge {compiler : Compiler} {documents : List Document}
    {f : Fault} (h : (merge compiler documents).outcome = .error f) :
    Ledger.RefusesDocuments compiler 100 documents f := by
  have hagree := agree_merge compiler documents
  rw [h] at hagree
  generalize haccepted : Ledger.acceptDocuments compiler 100 [] documents = accepted at hagree
  cases hagree
  exact Ledger.refusesDocuments_of_acceptDocuments (fun _ => id) Ledger.consonant_nil
    Ledger.DrawnFrom.nil haccepted

end Phrasebook
