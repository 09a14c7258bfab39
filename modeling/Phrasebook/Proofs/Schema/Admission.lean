import Mathlib.Data.List.Pairwise
import Phrasebook.Proofs.Diagnostic.Report
import Phrasebook.Proofs.Document.KeyPath
import Phrasebook.Proofs.OrderedMap
import Phrasebook.Proofs.Schema.Ledger

/-! # When a ledger accepts texts

A ledger checks each text against those accepted before it, in one order. What it decides does not
depend on that order: it accepts a list of texts just if all of them compile and every two of them
are compatible (`exists_admitsAll_iff`). For this the checks are put as one symmetric relation
(`Compatible`), and the accepted texts as a set that each accepted text joins (`mem_join`). What it
refuses a text for is something that stands in the ledger, or that the text does not compile
(`Refuses`). -/

namespace Phrasebook.Ledger

/-! ### Compatible paths -/

/-- **Two paths with signatures may stand in one ledger**: neither begins the other, one path has
one signature, and different paths have different keys. -/
structure Compatible (x y : KeyPath × Signature) : Prop where
  not_begins : x.1 ∉ y.1.ancestors
  not_begun : y.1 ∉ x.1.ancestors
  signature : x.1 = y.1 → x.2 = y.2
  key : x.1.key = y.1.key → x.1 = y.1

theorem Compatible.refl (x : KeyPath × Signature) : Compatible x x :=
  ⟨x.1.not_mem_ancestors_self, x.1.not_mem_ancestors_self, fun _ => rfl, fun _ => rfl⟩

theorem Compatible.symm {x y : KeyPath × Signature} (h : Compatible x y) : Compatible y x :=
  ⟨h.not_begun, h.not_begins, fun hpath => (h.signature hpath.symm).symm,
    fun hkey => (h.key hkey.symm).symm⟩

/-- Each path stands once in a ledger, and every two are compatible. -/
structure Consonant (l : Ledger) : Prop where
  nodup : l.keys.Nodup
  compatible : ∀ x ∈ l, ∀ y ∈ l, Compatible x y

theorem consonant_nil : Consonant [] :=
  ⟨List.nodup_nil, List.forall_mem_nil _⟩

/-- The ledger with a path, which may be in it already. -/
def join (l : Ledger) (x : KeyPath × Signature) : Ledger := if x.1 ∈ l.keys then l else l ++ [x]

section Join
variable {l : Ledger} {x : KeyPath × Signature}

theorem mem_join (h : ∀ y ∈ l, Compatible x y) {z : KeyPath × Signature} :
    z ∈ l.join x ↔ z ∈ l ∨ z = x := by
  unfold join
  split_ifs with hmem
  · constructor
    · exact Or.inl
    · rintro (hz | rfl)
      · exact hz
      · obtain ⟨s, hs⟩ := OrderedMap.exists_mem hmem
        have hsame : z.2 = s := (h _ hs).signature rfl
        rwa [← hsame] at hs
  · rw [List.mem_append, List.mem_singleton]

theorem Consonant.join (hl : l.Consonant) (h : ∀ y ∈ l, Compatible x y) :
    (l.join x).Consonant := by
  constructor
  · unfold Ledger.join
    split_ifs with hmem
    · exact hl.nodup
    · have hkeys : OrderedMap.keys (l ++ [x]) = l.keys ++ [x.1] := List.map_append
      rw [hkeys]
      exact List.nodup_append.mpr ⟨hl.nodup, List.pairwise_singleton _ _, by
        intro p hp q hq
        rw [List.mem_singleton.mp hq]
        rintro rfl
        exact hmem hp⟩
  · intro y hy z hz
    rcases (mem_join h).mp hy with hy | hyx <;> rcases (mem_join h).mp hz with hz | hzx
    · exact hl.compatible y hy z hz
    · rw [hzx]
      exact (h y hy).symm
    · rw [hyx]
      exact h z hz
    · rw [hyx, hzx]
      exact .refl x

end Join

/-! ### Accepting one text -/

/-- The text of a template compiles to a signature. -/
def Compiles (compiler : Compiler) (value : Text) (s : Signature) : Prop :=
  ∃ compiled, compiler value = .ok compiled ∧ compiled.signature = s

section Admits
variable {compiler : Compiler} {l l' : Ledger} {key locale value : Text} {path : KeyPath}

theorem Compiles.unique {s t : Signature} (hs : Compiles compiler value s)
    (ht : Compiles compiler value t) : s = t := by
  obtain ⟨compiled, hcompiled, rfl⟩ := hs
  obtain ⟨other, hother, rfl⟩ := ht
  rw [hcompiled] at hother
  cases hother
  rfl

theorem signatureOf_eq_ok {s : Signature} :
    signatureOf compiler key locale value = .ok s ↔ Compiles compiler value s := by
  unfold signatureOf Compiles
  cases compiler value with
  | ok compiled => simp
  | error f => cases f <;> simp

/-- **What it takes to accept a text**, and what is left of the ledger. -/
def Admits (compiler : Compiler) (l : Ledger) (x : KeyPath × Text) (l' : Ledger) : Prop :=
  ∃ s, Compiles compiler x.2 s ∧ (∀ y ∈ l, Compatible (x.1, s) y) ∧ l' = l.join (x.1, s)

/-- At a known path the text must compile to the signature of the path. -/
theorem admits_known (hl : l.Consonant) {expected : Signature} (hget : l.get? path = some expected)
    {mismatch : Signature → Fault} :
    ((signatureOf compiler key locale value).bind fun actual =>
        if actual = expected then .ok l else .error (mismatch actual)) = .ok l' ↔
      Admits compiler l (path, value) l' := by
  have hmem := OrderedMap.mem_of_get? hget
  have hjoin : ∀ s, l.join (path, s) = l := fun s => if_pos (OrderedMap.mem_keys hmem)
  rw [Except.bind_eq_ok]
  constructor
  · rintro ⟨actual, hactual, hl'⟩
    by_cases hsame : actual = expected
    · rw [if_pos hsame] at hl'
      cases hl'
      subst hsame
      exact ⟨actual, signatureOf_eq_ok.mp hactual, hl.compatible _ hmem, (hjoin actual).symm⟩
    · rw [if_neg hsame] at hl'
      cases hl'
  · rintro ⟨s, hs, hcompatible, rfl⟩
    have hsame : s = expected := (hcompatible _ hmem).signature rfl
    exact ⟨s, signatureOf_eq_ok.mpr hs, by rw [if_pos hsame, hjoin]⟩

/-- At a new path the text must compile, and the key must be new. -/
theorem admits_new (hnew : path ∉ l.keys) (hbegins : ∀ y ∈ l, path ∉ y.1.ancestors)
    (hbegun : ∀ y ∈ l, y.1 ∉ path.ancestors) {collision : Fault} :
    (if ∃ q ∈ l.keys, q.key = path.key then .error collision
      else (signatureOf compiler key locale value).bind fun actual =>
        .ok (l ++ [(path, actual)])) = .ok l' ↔
      Admits compiler l (path, value) l' := by
  have hjoin : ∀ s, l.join (path, s) = l ++ [(path, s)] := fun s => if_neg hnew
  by_cases hcollision : ∃ q ∈ l.keys, q.key = path.key
  · rw [if_pos hcollision]
    constructor
    · nofun
    · rintro ⟨s, -, hcompatible, -⟩
      obtain ⟨q, hq, hkey⟩ := hcollision
      obtain ⟨t, ht⟩ := OrderedMap.exists_mem hq
      have hpath : path = q := (hcompatible _ ht).key hkey.symm
      exact absurd (hpath ▸ hq) hnew
  · rw [if_neg hcollision, Except.bind_eq_ok]
    constructor
    · rintro ⟨s, hs, hl'⟩
      cases hl'
      refine ⟨s, signatureOf_eq_ok.mp hs, fun y hy => ?_, (hjoin s).symm⟩
      have hmem := OrderedMap.mem_keys hy
      refine ⟨hbegins y hy, hbegun y hy, ?_, ?_⟩
      · intro (hpath : path = y.1)
        rw [← hpath] at hmem
        exact absurd hmem hnew
      · intro hkey
        exact absurd ⟨y.1, hmem, hkey.symm⟩ hcollision
    · rintro ⟨s, hs, -, rfl⟩
      exact ⟨s, signatureOf_eq_ok.mpr hs, by rw [hjoin]⟩

/-- **The checks of a ledger, made one after the other, are those of compatibility.** -/
theorem accept_eq_ok (hl : l.Consonant) :
    l.accept compiler locale path value = .ok l' ↔ Admits compiler l (path, value) l' := by
  unfold accept
  cases hfind : path.ancestors.find? (· ∈ l.keys) with
  | some ancestor =>
    constructor
    · nofun
    · rintro ⟨s, -, hcompatible, -⟩
      have hmem : ancestor ∈ l.keys := by simpa using List.find?_some hfind
      obtain ⟨t, ht⟩ := OrderedMap.exists_mem hmem
      exact absurd (List.mem_of_find?_eq_some hfind) (hcompatible _ ht).not_begun
  | none =>
    have hbegun : ∀ y ∈ l, y.1 ∉ path.ancestors := by
      intro y hy hmem
      have hnot := List.find?_eq_none.mp hfind y.1 hmem
      exact hnot (decide_eq_true (OrderedMap.mem_keys hy))
    by_cases hbegins : ∃ q ∈ l.keys, path ∈ q.ancestors
    · rw [if_pos hbegins]
      constructor
      · nofun
      · rintro ⟨s, -, hcompatible, -⟩
        obtain ⟨q, hq, hpath⟩ := hbegins
        obtain ⟨t, ht⟩ := OrderedMap.exists_mem hq
        exact absurd hpath (hcompatible _ ht).not_begins
    · rw [if_neg hbegins]
      cases hget : l.get? path with
      | some expected => exact admits_known hl hget
      | none =>
        exact admits_new (OrderedMap.get?_eq_none.mp hget)
          (fun y hy hpath => hbegins ⟨y.1, OrderedMap.mem_keys hy, hpath⟩) hbegun

end Admits

/-! ### Refusing one text -/

/-- **The reasons of a ledger to refuse** the text at a path in a locale, each with its failure. -/
inductive Refuses (compiler : Compiler) (l : Ledger) (locale : Text) (path : KeyPath)
    (value : Text) : Fault → Prop where
  /-- The path leads through a text. -/
  | begun {ancestor : KeyPath} (hancestor : ancestor ∈ path.ancestors) (hmem : ancestor ∈ l.keys) :
      Refuses compiler l locale path value (.problem (.structureMismatch ancestor.key locale))
  /-- Other texts are below the path. -/
  | begins {q : KeyPath} (hmem : q ∈ l.keys) (hancestor : path ∈ q.ancestors) :
      Refuses compiler l locale path value (.problem (.structureMismatch path.key locale))
  | malformed {t : TemplateFault} (h : compiler value = .error (.template t)) :
      Refuses compiler l locale path value
        (.problem (.templateSyntax path.key locale t.reason t.position))
  | crash {c : Crash} (h : compiler value = .error (.crash c)) :
      Refuses compiler l locale path value (.crash c)
  /-- The path has another signature. -/
  | mismatch {expected actual : Signature} (hmem : (path, expected) ∈ l)
      (hactual : Compiles compiler value actual) (hne : expected ≠ actual) :
      Refuses compiler l locale path value
        (.problem (.signatureMismatch path.key locale expected.describe actual.describe))
  /-- Another path has the key of this one. -/
  | collision {q : KeyPath} (hmem : q ∈ l.keys) (hne : q ≠ path) (hkey : q.key = path.key) :
      Refuses compiler l locale path value (.problem (.keyCollision path.key locale))

section Refuses
variable {compiler : Compiler} {l : Ledger} {locale value : Text} {path : KeyPath} {f : Fault}

theorem refuses_of_signatureOf (h : signatureOf compiler path.key locale value = .error f) :
    Refuses compiler l locale path value f := by
  unfold signatureOf at h
  split at h
  next => cases h
  next hcompiler =>
    cases h
    exact .malformed hcompiler
  next hcompiler =>
    cases h
    exact .crash hcompiler

/-- At a known path the reason is the text or its signature. -/
theorem refuses_known {expected : Signature} (hget : l.get? path = some expected)
    (h : ((signatureOf compiler path.key locale value).bind fun actual =>
      if actual = expected then .ok l
      else .error (.problem (.signatureMismatch path.key locale expected.describe
        actual.describe))) = .error f) :
    Refuses compiler l locale path value f := by
  rcases Except.bind_eq_error.mp h with h | ⟨actual, hactual, h⟩
  · exact refuses_of_signatureOf h
  · by_cases hsame : actual = expected
    · rw [if_pos hsame] at h
      cases h
    · rw [if_neg hsame] at h
      cases h
      exact .mismatch (OrderedMap.mem_of_get? hget) (signatureOf_eq_ok.mp hactual)
        (Ne.symm hsame)

theorem refuses_new (hnew : path ∉ l.keys)
    (h : (if ∃ q ∈ l.keys, q.key = path.key then .error (.problem (.keyCollision path.key locale))
      else (signatureOf compiler path.key locale value).bind fun actual =>
        .ok (l ++ [(path, actual)])) = .error f) :
    Refuses compiler l locale path value f := by
  by_cases hcollision : ∃ q ∈ l.keys, q.key = path.key
  · rw [if_pos hcollision] at h
    cases h
    obtain ⟨q, hmem, hkey⟩ := hcollision
    refine .collision hmem ?_ hkey
    rintro rfl
    exact hnew hmem
  · rw [if_neg hcollision] at h
    rcases Except.bind_eq_error.mp h with h | ⟨actual, -, h⟩
    · exact refuses_of_signatureOf h
    · cases h

/-- **A text that is not accepted is refused** for one of these reasons. -/
theorem refuses_of_accept (h : l.accept compiler locale path value = .error f) :
    Refuses compiler l locale path value f := by
  unfold accept at h
  cases hfind : path.ancestors.find? (· ∈ l.keys) with
  | some ancestor =>
    rw [hfind] at h
    cases h
    have hmem : ancestor ∈ l.keys := by simpa using List.find?_some hfind
    exact .begun (List.mem_of_find?_eq_some hfind) hmem
  | none =>
    rw [hfind] at h
    by_cases hbegins : ∃ q ∈ l.keys, path ∈ q.ancestors
    · simp only [if_pos hbegins] at h
      cases h
      obtain ⟨q, hmem, hancestor⟩ := hbegins
      exact .begins hmem hancestor
    · simp only [if_neg hbegins] at h
      cases hget : l.get? path with
      | some expected =>
        rw [hget] at h
        exact refuses_known hget h
      | none =>
        rw [hget] at h
        exact refuses_new (OrderedMap.get?_eq_none.mp hget) h

end Refuses

/-! ### Accepting texts -/

/-- Texts are accepted one after the other. -/
def AdmitsAll (compiler : Compiler) : Ledger → List (KeyPath × Text) → Ledger → Prop
  | l, [], l' => l' = l
  | l, x :: rest, l' => ∃ m, Admits compiler l x m ∧ AdmitsAll compiler m rest l'

/-- Two texts compile to compatible signatures, as far as they compile. -/
def Harmonious (compiler : Compiler) (x y : KeyPath × Text) : Prop :=
  ∀ s t, Compiles compiler x.2 s → Compiles compiler y.2 t → Compatible (x.1, s) (y.1, t)

section AdmitsAll
variable {compiler : Compiler}

instance : Std.Symm (Harmonious compiler) where
  symm _ _ h s t hs ht := (h t s ht hs).symm

theorem Admits.consonant {l l' : Ledger} {x : KeyPath × Text} (hl : l.Consonant)
    (h : Admits compiler l x l') : l'.Consonant := by
  obtain ⟨s, -, hcompatible, rfl⟩ := h
  exact hl.join hcompatible

theorem AdmitsAll.consonant {l l' : Ledger} {xs : List (KeyPath × Text)} (hl : l.Consonant)
    (h : AdmitsAll compiler l xs l') : l'.Consonant := by
  induction xs generalizing l with
  | nil =>
    obtain rfl := h
    exact hl
  | cons x rest ih =>
    obtain ⟨m, hm, hrest⟩ := h
    exact ih (hm.consonant hl) hrest

theorem admitsAll_append {l l' : Ledger} {xs ys : List (KeyPath × Text)} :
    AdmitsAll compiler l (xs ++ ys) l' ↔
      ∃ m, AdmitsAll compiler l xs m ∧ AdmitsAll compiler m ys l' := by
  induction xs generalizing l with
  | nil =>
    constructor
    · intro h
      exact ⟨l, rfl, h⟩
    · rintro ⟨m, rfl, h⟩
      exact h
  | cons x rest ih =>
    constructor
    · rintro ⟨m, hm, hrest⟩
      obtain ⟨n, hn, hys⟩ := ih.mp hrest
      exact ⟨n, ⟨m, hm, hn⟩, hys⟩
    · rintro ⟨n, ⟨m, hm, hn⟩, hys⟩
      exact ⟨m, hm, ih.mpr ⟨n, hn, hys⟩⟩

theorem exists_admitsAll {l : Ledger} {xs : List (KeyPath × Text)} :
    (∃ l', AdmitsAll compiler l xs l') ↔
      (∀ x ∈ xs, ∃ s, Compiles compiler x.2 s ∧ ∀ y ∈ l, Compatible (x.1, s) y) ∧
        xs.Pairwise (Harmonious compiler) := by
  induction xs generalizing l with
  | nil =>
    constructor
    · intro _
      exact ⟨List.forall_mem_nil _, .nil⟩
    · intro _
      exact ⟨l, rfl⟩
  | cons x rest ih =>
    rw [List.forall_mem_cons, List.pairwise_cons]
    constructor
    · rintro ⟨l', m, ⟨s, hs, hcompatible, rfl⟩, hrest⟩
      obtain ⟨hothers, hpairs⟩ := ih.mp ⟨l', hrest⟩
      refine ⟨⟨⟨s, hs, hcompatible⟩, ?_⟩, ?_, hpairs⟩
      · intro y hy
        obtain ⟨t, ht, hjoined⟩ := hothers y hy
        exact ⟨t, ht, fun z hz => hjoined z ((mem_join hcompatible).mpr (Or.inl hz))⟩
      · intro y hy s' t hs' ht
        obtain ⟨t', ht', hjoined⟩ := hothers y hy
        rw [hs'.unique hs, ht.unique ht']
        exact (hjoined _ ((mem_join hcompatible).mpr (Or.inr rfl))).symm
    · rintro ⟨⟨⟨s, hs, hcompatible⟩, hothers⟩, hfirst, hpairs⟩
      have hjoined : ∀ y ∈ rest, ∃ t, Compiles compiler y.2 t ∧
          ∀ z ∈ l.join (x.1, s), Compatible (y.1, t) z := by
        intro y hy
        obtain ⟨t, ht, hold⟩ := hothers y hy
        refine ⟨t, ht, fun z hz => ?_⟩
        rcases (mem_join hcompatible).mp hz with hz | rfl
        · exact hold z hz
        · exact (hfirst y hy s t hs ht).symm
      obtain ⟨l', hl'⟩ := ih.mpr ⟨hjoined, hpairs⟩
      exact ⟨l', _, ⟨s, hs, hcompatible, rfl⟩, hl'⟩

/-- **An empty ledger accepts a list of texts just if all of them compile and every two of them are
compatible.** -/
theorem exists_admitsAll_iff {xs : List (KeyPath × Text)} :
    (∃ l', AdmitsAll compiler [] xs l') ↔
      (∀ x ∈ xs, ∃ s, Compiles compiler x.2 s) ∧ ∀ x ∈ xs, ∀ y ∈ xs, Harmonious compiler x y := by
  have hrefl : ∀ x ∈ xs, Harmonious compiler x x := by
    intro x _ s t hs ht
    rw [hs.unique ht]
    exact .refl _
  rw [exists_admitsAll]
  constructor
  · rintro ⟨hcompiles, hpairs⟩
    refine ⟨fun x hx => ?_, fun x hx y hy => hpairs.forall_of_forall hrefl hx hy⟩
    obtain ⟨s, hs, -⟩ := hcompiles x hx
    exact ⟨s, hs⟩
  · rintro ⟨hcompiles, hpairs⟩
    refine ⟨fun x hx => ?_, List.pairwise_of_forall_mem_list hpairs⟩
    obtain ⟨s, hs⟩ := hcompiles x hx
    exact ⟨s, hs, List.forall_mem_nil _⟩

end AdmitsAll

end Phrasebook.Ledger
