import Phrasebook.Proofs.Document.Subtree
import Phrasebook.Proofs.Schema.Admission

/-! # The values that a ledger meets

To accept a tree is to meet the values in it one after the other (`acceptTree_eq_acceptValues`),
each of which is a text, opens a container or is skipped (`acceptValue`). So what holds of a tree is
an induction over a list: which lists of values are accepted (`acceptValues_eq_ok`), and that
nothing crashes but the compiler of templates (`crashesAs_acceptDocuments`). -/

namespace Phrasebook.Ledger

section Values
variable (compiler : Compiler) (limit : Int) (locale : Text)

/-- Accepts a text; opens a container, if it is not too deep; skips any other value. -/
def acceptValue (l : Ledger) : KeyPath × Datum Foreign → Except Fault Ledger
  | (path, .text t) => accept compiler l locale path t
  | (path, value) =>
    if value.isContainer = true ∧ limit ≤ path.depth then
      .error (.problem (.depthExceeded limit path.key))
    else .ok l

/-- **Accepts values** one after the other. -/
def acceptValues (l : Ledger) : List (KeyPath × Datum Foreign) → Except Fault Ledger
  | [] => .ok l
  | x :: rest => (acceptValue compiler limit locale l x).bind fun l => acceptValues l rest

theorem acceptValues_append (l : Ledger) (xs ys : List (KeyPath × Datum Foreign)) :
    acceptValues compiler limit locale l (xs ++ ys) =
      (acceptValues compiler limit locale l xs).bind fun l =>
        acceptValues compiler limit locale l ys := by
  induction xs generalizing l with
  | nil => rfl
  | cons x rest ih =>
    rw [List.cons_append, acceptValues, acceptValues, Except.bind_assoc]
    exact congrArg _ (funext ih)

/-- A container is opened before the values in it are met. -/
theorem acceptValues_container {tree : Datum Foreign} (h : tree.isContainer = true) (l : Ledger)
    (path : KeyPath) (values : List (KeyPath × Datum Foreign)) :
    acceptValues compiler limit locale l ((path, tree) :: values) =
      if limit ≤ path.depth then .error (.problem (.depthExceeded limit path.key))
      else acceptValues compiler limit locale l values := by
  have hvalue : acceptValue compiler limit locale l (path, tree) =
      if limit ≤ path.depth then .error (.problem (.depthExceeded limit path.key)) else .ok l := by
    cases tree with
    | map entries => simp only [acceptValue, Datum.isContainer, true_and]
    | list items => simp only [acceptValue, Datum.isContainer, true_and]
    | _ => cases h
  rw [acceptValues, hvalue]
  split_ifs with hdeep
  · rfl
  · rfl

/-- A value that is no container is met alone. -/
theorem acceptValues_subtrees_of_not_container {tree : Datum Foreign}
    (h : tree.isContainer = false) (l : Ledger) (path : KeyPath) :
    acceptValues compiler limit locale l (tree.subtrees path) =
      acceptValue compiler limit locale l (path, tree) := by
  rw [Datum.subtrees_of_not_container h, acceptValues]
  cases acceptValue compiler limit locale l (path, tree) <;> rfl

mutual

/-- **To accept a tree is to meet the values in it.** -/
theorem acceptTree_eq_acceptValues : ∀ (tree : Datum Foreign) (path : KeyPath) (l : Ledger),
    acceptTree compiler limit locale path.depth path l tree =
      acceptValues compiler limit locale l (tree.subtrees path)
  | .map entries, path, l => by
    rw [acceptTree, Datum.subtrees, acceptValues_container compiler limit locale rfl,
      acceptEntries_eq_acceptValues entries path l]
  | .list items, path, l => by
    rw [acceptTree, Datum.subtrees, acceptValues_container compiler limit locale rfl,
      acceptItems_eq_acceptValues items path 0 l]
  | .text t, path, l => by
    rw [acceptTree, acceptValues_subtrees_of_not_container compiler limit locale rfl]
    rfl
  | .null, path, l | .bool _, path, l | .number _, path, l | .tuple _, path, l
  | .other _, path, l => by
    rw [acceptTree, acceptValues_subtrees_of_not_container compiler limit locale rfl]
    rfl

theorem acceptItems_eq_acceptValues : ∀ (items : List (Datum Foreign)) (path : KeyPath)
    (position : Nat) (l : Ledger),
      acceptItems compiler limit locale (path.depth + 1) path position l items =
        acceptValues compiler limit locale l (Datum.subtreesOfItems path position items)
  | [], path, position, l => by
    rw [acceptItems, Datum.subtreesOfItems, acceptValues]
  | item :: rest, path, position, l => by
    have hitem := acceptTree_eq_acceptValues item (path.child (.name (Numeral.ofNat position))) l
    rw [KeyPath.depth_child] at hitem
    rw [acceptItems, Datum.subtreesOfItems, acceptValues_append, hitem]
    exact congrArg _ (funext fun m => acceptItems_eq_acceptValues rest path (position + 1) m)

theorem acceptEntries_eq_acceptValues : ∀ (entries : List (DatumKey × Datum Foreign))
    (path : KeyPath) (l : Ledger),
      acceptEntries compiler limit locale (path.depth + 1) path l entries =
        acceptValues compiler limit locale l (Datum.subtreesOfEntries path entries)
  | [], path, l => by
    rw [acceptEntries, Datum.subtreesOfEntries, acceptValues]
  | (key, value) :: rest, path, l => by
    have hvalue := acceptTree_eq_acceptValues value (path.child (.name key.toText)) l
    rw [KeyPath.depth_child] at hvalue
    rw [acceptEntries, Datum.subtreesOfEntries, acceptValues_append, hvalue]
    exact congrArg _ (funext fun m => acceptEntries_eq_acceptValues rest path m)

end

end Values

/-! ### Which values are accepted -/

/-- No container among the values is inside of as many others as the limit says. -/
def Shallow (limit : Int) (values : List (KeyPath × Datum Foreign)) : Prop :=
  ∀ x ∈ values, x.2.isContainer = true → x.1.depth < limit

/-- The texts among some values. -/
def texts (values : List (KeyPath × Datum Foreign)) : List (KeyPath × Text) :=
  values.filterMap fun
    | (path, .text t) => some (path, t)
    | _ => none

theorem mem_texts {values : List (KeyPath × Datum Foreign)} {path : KeyPath} {t : Text} :
    (path, t) ∈ texts values ↔ (path, .text t) ∈ values := by
  unfold texts
  rw [List.mem_filterMap]
  constructor
  · rintro ⟨⟨p, value⟩, hmem, heq⟩
    cases value <;> cases heq
    exact hmem
  · intro hmem
    exact ⟨_, hmem, rfl⟩

theorem shallow_append {limit : Int} {xs ys : List (KeyPath × Datum Foreign)} :
    Shallow limit (xs ++ ys) ↔ Shallow limit xs ∧ Shallow limit ys :=
  List.forall_mem_append

theorem texts_append (xs ys : List (KeyPath × Datum Foreign)) :
    texts (xs ++ ys) = texts xs ++ texts ys :=
  List.filterMap_append

section Accept
variable {compiler : Compiler} {limit : Int} {locale : Text} {l l' : Ledger}

theorem shallow_singleton {x : KeyPath × Datum Foreign} :
    Shallow limit [x] ↔ ¬(x.2.isContainer = true ∧ limit ≤ x.1.depth) := by
  unfold Shallow
  rw [List.forall_mem_singleton, not_and, Int.not_le]

/-- A value that is no text leaves the ledger as it is, unless it is too deep. -/
theorem acceptValue_eq_ok_of_not_text {x : KeyPath × Datum Foreign} (htexts : texts [x] = [])
    (hvalue : acceptValue compiler limit locale l x =
      if x.2.isContainer = true ∧ limit ≤ x.1.depth then
        .error (.problem (.depthExceeded limit x.1.key))
      else .ok l) :
    acceptValue compiler limit locale l x = .ok l' ↔
      Shallow limit [x] ∧ AdmitsAll compiler l (texts [x]) l' := by
  rw [shallow_singleton, htexts, hvalue]
  split_ifs with hdeep
  · constructor
    · nofun
    · rintro ⟨hshallow, -⟩
      exact absurd hdeep hshallow
  · constructor
    · intro h
      cases h
      exact ⟨hdeep, rfl⟩
    · rintro ⟨-, rfl⟩
      rfl

theorem acceptValue_eq_ok (hl : l.Consonant) (x : KeyPath × Datum Foreign) :
    acceptValue compiler limit locale l x = .ok l' ↔
      Shallow limit [x] ∧ AdmitsAll compiler l (texts [x]) l' := by
  obtain ⟨path, value⟩ := x
  cases value with
  | text t =>
    have hshallow : Shallow limit [(path, .text t)] := shallow_singleton.mpr (by nofun)
    rw [acceptValue, accept_eq_ok hl]
    constructor
    · intro h
      exact ⟨hshallow, l', h, rfl⟩
    · rintro ⟨-, m, hm, rfl⟩
      exact hm
  | _ => exact acceptValue_eq_ok_of_not_text rfl rfl

/-- **Values are accepted** just if they are shallow and their texts are admitted. -/
theorem acceptValues_eq_ok (hl : l.Consonant) {values : List (KeyPath × Datum Foreign)} :
    acceptValues compiler limit locale l values = .ok l' ↔
      Shallow limit values ∧ AdmitsAll compiler l (texts values) l' := by
  induction values generalizing l with
  | nil =>
    rw [acceptValues]
    constructor
    · intro h
      cases h
      exact ⟨List.forall_mem_nil _, rfl⟩
    · rintro ⟨-, rfl⟩
      rfl
  | cons x rest ih =>
    rw [acceptValues, Except.bind_eq_ok, ← List.singleton_append, shallow_append, texts_append,
      admitsAll_append]
    constructor
    · rintro ⟨m, hm, hrest⟩
      obtain ⟨hfirst, htext⟩ := (acceptValue_eq_ok hl x).mp hm
      obtain ⟨hothers, htexts⟩ := (ih (htext.consonant hl)).mp hrest
      exact ⟨⟨hfirst, hothers⟩, m, htext, htexts⟩
    · rintro ⟨⟨hfirst, hothers⟩, m, htext, htexts⟩
      exact ⟨m, (acceptValue_eq_ok hl x).mpr ⟨hfirst, htext⟩,
        (ih (htext.consonant hl)).mpr ⟨hothers, htexts⟩⟩

/-- The values in the trees of some documents. -/
def valuesOf (documents : List Document) : List (KeyPath × Datum Foreign) :=
  documents.flatMap fun document => document.tree.subtrees .root

/-- A document is accepted just if its root is a container and the values in it are. -/
theorem acceptDocument_eq_ok (hl : l.Consonant) {document : Document} :
    acceptDocument compiler limit l document = .ok l' ↔
      document.tree.isContainer = true ∧ Shallow limit (document.tree.subtrees .root) ∧
        AdmitsAll compiler l (texts (document.tree.subtrees .root)) l' := by
  unfold acceptDocument
  split_ifs with hroot
  · have htree := acceptTree_eq_acceptValues compiler limit document.locale document.tree .root l
    rw [← acceptValues_eq_ok hl, ← htree]
    exact ⟨fun h => ⟨hroot, h⟩, fun h => h.2⟩
  · exact ⟨nofun, fun h => absurd h.1 hroot⟩

/-- **Documents are accepted** just if their roots are containers and the values in them are. -/
theorem acceptDocuments_eq_ok (hl : l.Consonant) {documents : List Document} :
    acceptDocuments compiler limit l documents = .ok l' ↔
      (∀ document ∈ documents, document.tree.isContainer = true) ∧
        Shallow limit (valuesOf documents) ∧
          AdmitsAll compiler l (texts (valuesOf documents)) l' := by
  induction documents generalizing l with
  | nil =>
    rw [acceptDocuments]
    constructor
    · intro h
      cases h
      exact ⟨List.forall_mem_nil _, List.forall_mem_nil _, rfl⟩
    · rintro ⟨-, -, rfl⟩
      rfl
  | cons document rest ih =>
    have hvalues : valuesOf (document :: rest) =
      document.tree.subtrees .root ++ valuesOf rest := List.flatMap_cons
    rw [acceptDocuments, Except.bind_eq_ok, List.forall_mem_cons, hvalues, shallow_append,
      texts_append, admitsAll_append]
    constructor
    · rintro ⟨m, hm, hrest⟩
      obtain ⟨hroot, hshallow, htexts⟩ := (acceptDocument_eq_ok hl).mp hm
      obtain ⟨hroots, hothers, hmore⟩ := (ih (htexts.consonant hl)).mp hrest
      exact ⟨⟨hroot, hroots⟩, ⟨hshallow, hothers⟩, m, htexts, hmore⟩
    · rintro ⟨⟨hroot, hroots⟩, ⟨hshallow, hothers⟩, m, htexts, hmore⟩
      exact ⟨m, (acceptDocument_eq_ok hl).mpr ⟨hroot, hshallow, htexts⟩,
        (ih (htexts.consonant hl)).mpr ⟨hroots, hothers, hmore⟩⟩

/-- **An empty ledger accepts documents** by conditions on single values and on pairs of texts. -/
theorem exists_acceptDocuments {documents : List Document} :
    (∃ l, acceptDocuments compiler limit [] documents = .ok l) ↔
      (∀ document ∈ documents, document.tree.isContainer = true) ∧
        Shallow limit (valuesOf documents) ∧
          (∀ x ∈ texts (valuesOf documents), ∃ s, Compiles compiler x.2 s) ∧
            ∀ x ∈ texts (valuesOf documents), ∀ y ∈ texts (valuesOf documents),
              Harmonious compiler x y := by
  rw [← exists_admitsAll_iff]
  simp only [acceptDocuments_eq_ok consonant_nil]
  constructor
  · rintro ⟨l, hroots, hshallow, htexts⟩
    exact ⟨hroots, hshallow, l, htexts⟩
  · rintro ⟨hroots, hshallow, l, htexts⟩
    exact ⟨l, hroots, hshallow, htexts⟩

end Accept

/-! ### Crashes -/

/-- A crash is one of the compiler of templates. -/
def CrashesAs (compiler : Compiler) {α : Type} (x : Except Fault α) : Prop :=
  ∀ c, x = .error (.crash c) → ∃ t, compiler t = .error (.crash c)

section Crash
variable {compiler : Compiler} {limit : Int} {locale : Text} {α β : Type}

theorem crashesAs_ok (a : α) : CrashesAs compiler (.ok a : Except Fault α) := nofun

theorem crashesAs_problem (p : Problem) :
    CrashesAs compiler (.error (.problem p) : Except Fault α) := nofun

theorem CrashesAs.bind {x : Except Fault α} (h : CrashesAs compiler x) {f : α → Except Fault β}
    (hf : ∀ a, CrashesAs compiler (f a)) : CrashesAs compiler (x.bind f) := by
  cases x with
  | ok a => exact hf a
  | error e =>
    intro c hc
    cases hc
    exact h c rfl

theorem crashesAs_accept (l : Ledger) (path : KeyPath) (value : Text) :
    CrashesAs compiler (l.accept compiler locale path value) := by
  intro c hc
  cases refuses_of_accept hc with
  | crash h => exact ⟨value, h⟩

theorem crashesAs_acceptValue (l : Ledger) (x : KeyPath × Datum Foreign) :
    CrashesAs compiler (acceptValue compiler limit locale l x) := by
  unfold acceptValue
  split
  · exact crashesAs_accept l _ _
  · split
    · exact crashesAs_problem _
    · exact crashesAs_ok l

theorem crashesAs_acceptValues (values : List (KeyPath × Datum Foreign)) (l : Ledger) :
    CrashesAs compiler (acceptValues compiler limit locale l values) := by
  induction values generalizing l with
  | nil => exact crashesAs_ok l
  | cons x rest ih => exact (crashesAs_acceptValue l x).bind ih

/-- **A ledger crashes only where the compiler of templates does.** -/
theorem crashesAs_acceptDocuments (documents : List Document) (l : Ledger) :
    CrashesAs compiler (acceptDocuments compiler limit l documents) := by
  induction documents generalizing l with
  | nil => exact crashesAs_ok l
  | cons document rest ih =>
    have hdocument : CrashesAs compiler (acceptDocument compiler limit l document) := by
      have htree := acceptTree_eq_acceptValues compiler limit document.locale document.tree .root l
      unfold acceptDocument
      split
      · exact htree ▸ crashesAs_acceptValues _ l
      · exact crashesAs_problem _
    exact hdocument.bind ih

end Crash

end Phrasebook.Ledger
