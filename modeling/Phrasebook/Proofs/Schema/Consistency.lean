import Phrasebook.Proofs.Schema.Refinement
import Phrasebook.Proofs.Schema.Values

/-! # Which documents can be merged

Documents can be merged just if they are consistent (`Consistent`, `merge_iff_consistent`):
conditions on single values and on pairs of texts, in which neither the order of the documents nor
the order of the texts plays a role. The proof goes through the ledger, which decides as the merge
does (`Catalogue.agree_merge`), accepts texts just if they are pairwise compatible
(`Ledger.exists_admitsAll_iff`) and never crashes (`Ledger.crashesAs_acceptDocuments`). -/

namespace Phrasebook

/-! ### Consistent documents -/

/-- **Documents are consistent.** The steps of a path are those from the root of a document on, so
there are as many of them as there are containers around the value. -/
structure Consistent (documents : List Document) : Prop where
  /-- Every root is a mapping or a list. -/
  root : ∀ d ∈ documents, d.tree.isContainer = true
  /-- No mapping or list is inside of a hundred others. -/
  nesting : ∀ d ∈ documents, ∀ {steps value}, d.tree.At steps value → value.isContainer = true →
    steps.length < 100
  /-- Every text compiles. -/
  compiles : ∀ d ∈ documents, ∀ {steps t}, d.tree.At steps (.text t) →
    ∃ compiled, Template.compile t = .ok compiled
  /-- No path of a text begins another one. -/
  prefixFree : ∀ d ∈ documents, ∀ e ∈ documents, ∀ {p q t u}, d.tree.At p (.text t) →
    e.tree.At q (.text u) → p <+: q → p = q
  /-- Different paths of texts have different keys. -/
  keys : ∀ d ∈ documents, ∀ e ∈ documents, ∀ {p q t u}, d.tree.At p (.text t) →
    e.tree.At q (.text u) → KeyPath.key ⟨p⟩ = KeyPath.key ⟨q⟩ → p = q
  /-- Texts at one path have equal signatures. -/
  signatures : ∀ d ∈ documents, ∀ e ∈ documents, ∀ {p t u}, d.tree.At p (.text t) →
    e.tree.At p (.text u) → ∀ {compiled other}, Template.compile t = .ok compiled →
      Template.compile u = .ok other → compiled.signature = other.signature

section Consistent
variable {documents : List Document}

theorem mem_valuesOf {path : KeyPath} {value : Datum Foreign} :
    (path, value) ∈ Ledger.valuesOf documents ↔
      ∃ d ∈ documents, d.tree.At path.segments value := by
  unfold Ledger.valuesOf
  simp only [List.mem_flatMap, Datum.mem_subtrees_root]

theorem compiles_compiler {t : Text} {s : Signature} :
    Ledger.Compiles Template.compiler t s ↔
      ∃ compiled, Template.compile t = .ok compiled ∧ compiled.signature = s := by
  unfold Ledger.Compiles Template.compiler
  cases Template.compile t with
  | ok compiled =>
    constructor
    · rintro ⟨_, h, rfl⟩
      cases h
      exact ⟨_, rfl, rfl⟩
    · rintro ⟨_, h, rfl⟩
      cases h
      exact ⟨_, rfl, rfl⟩
  | error f =>
    constructor
    · rintro ⟨_, h, -⟩
      cases h
    · rintro ⟨_, h, -⟩
      cases h

/-- The compiler of brace templates does not crash. -/
theorem compiler_ne_crash (t : Text) (c : Crash) : Template.compiler t ≠ .error (.crash c) := by
  unfold Template.compiler
  cases Template.compile t <;> nofun

theorem mem_texts_valuesOf {path : KeyPath} {t : Text} :
    (path, t) ∈ Ledger.texts (Ledger.valuesOf documents) ↔
      ∃ d ∈ documents, d.tree.At path.segments (.text t) := by
  rw [Ledger.mem_texts, mem_valuesOf]

/-- The root of a document that is a container is no text. -/
theorem ne_root_of_at {d : Document} (hroot : d.tree.isContainer = true) {path : KeyPath} {t : Text}
    (hat : d.tree.At path.segments (.text t)) : path ≠ .root := by
  rintro rfl
  have hat' : d.tree.At [] (.text t) := hat
  generalize d.tree = tree at hroot hat'
  cases hat'
  cases hroot

theorem Consistent.harmonious (h : Consistent documents) :
    ∀ x ∈ Ledger.texts (Ledger.valuesOf documents),
      ∀ y ∈ Ledger.texts (Ledger.valuesOf documents),
        Ledger.Harmonious Template.compiler x y := by
  rintro ⟨p, t⟩ hx ⟨q, u⟩ hy s s' hs hs'
  obtain ⟨d, hd, hp⟩ := mem_texts_valuesOf.mp hx
  obtain ⟨e, he, hq⟩ := mem_texts_valuesOf.mp hy
  obtain ⟨compiled, hcompiled, rfl⟩ := compiles_compiler.mp hs
  obtain ⟨other, hother, rfl⟩ := compiles_compiler.mp hs'
  refine ⟨?_, ?_, ?_, ?_⟩
  · intro hmem
    obtain ⟨-, hbegins, hne⟩ := KeyPath.mem_ancestors.mp hmem
    exact hne (KeyPath.ext (h.prefixFree d hd e he hp hq hbegins))
  · intro hmem
    obtain ⟨-, hbegins, hne⟩ := KeyPath.mem_ancestors.mp hmem
    exact hne (KeyPath.ext (h.prefixFree e he d hd hq hp hbegins))
  · intro (hpath : p = q)
    subst hpath
    exact h.signatures d hd e he hp hq hcompiled hother
  · intro hkey
    exact KeyPath.ext (h.keys d hd e he hp hq hkey)

section Converse
variable (hcompiles : ∀ x ∈ Ledger.texts (Ledger.valuesOf documents),
  ∃ s, Ledger.Compiles Template.compiler x.2 s)
include hcompiles

theorem exists_compile {d : Document} (hd : d ∈ documents) {steps : List Segment} {t : Text}
    (hat : d.tree.At steps (.text t)) : ∃ compiled, Template.compile t = .ok compiled := by
  obtain ⟨s, hs⟩ := hcompiles (⟨steps⟩, t) (mem_texts_valuesOf.mpr ⟨d, hd, hat⟩)
  obtain ⟨compiled, hcompiled, -⟩ := compiles_compiler.mp hs
  exact ⟨compiled, hcompiled⟩

theorem exists_compatible (hharmonious : ∀ x ∈ Ledger.texts (Ledger.valuesOf documents),
      ∀ y ∈ Ledger.texts (Ledger.valuesOf documents), Ledger.Harmonious Template.compiler x y)
    {d e : Document} (hd : d ∈ documents) (he : e ∈ documents) {p q : List Segment} {t u : Text}
    (hp : d.tree.At p (.text t)) (hq : e.tree.At q (.text u)) :
    ∃ compiled other, Template.compile t = .ok compiled ∧ Template.compile u = .ok other ∧
      Ledger.Compatible (⟨p⟩, compiled.signature) (⟨q⟩, other.signature) := by
  obtain ⟨compiled, hcompiled⟩ := exists_compile hcompiles hd hp
  obtain ⟨other, hother⟩ := exists_compile hcompiles he hq
  have hx : ((⟨p⟩ : KeyPath), t) ∈ Ledger.texts (Ledger.valuesOf documents) :=
    mem_texts_valuesOf.mpr ⟨d, hd, hp⟩
  have hy : ((⟨q⟩ : KeyPath), u) ∈ Ledger.texts (Ledger.valuesOf documents) :=
    mem_texts_valuesOf.mpr ⟨e, he, hq⟩
  have hs := compiles_compiler.mpr ⟨compiled, hcompiled, rfl⟩
  have hs' := compiles_compiler.mpr ⟨other, hother, rfl⟩
  exact ⟨compiled, other, hcompiled, hother, hharmonious _ hx _ hy _ _ hs hs'⟩

end Converse

theorem consistent_iff :
    Consistent documents ↔
      (∀ d ∈ documents, d.tree.isContainer = true) ∧
        Ledger.Shallow 100 (Ledger.valuesOf documents) ∧
          (∀ x ∈ Ledger.texts (Ledger.valuesOf documents),
            ∃ s, Ledger.Compiles Template.compiler x.2 s) ∧
            ∀ x ∈ Ledger.texts (Ledger.valuesOf documents),
              ∀ y ∈ Ledger.texts (Ledger.valuesOf documents),
                Ledger.Harmonious Template.compiler x y := by
  constructor
  · intro h
    refine ⟨h.root, ?_, ?_, h.harmonious⟩
    · rintro ⟨path, value⟩ hmem hcontainer
      obtain ⟨d, hd, hat⟩ := mem_valuesOf.mp hmem
      have hlength : path.depth < 100 := h.nesting d hd hat hcontainer
      show (path.depth : Int) < 100
      omega
    · rintro ⟨path, t⟩ hmem
      obtain ⟨d, hd, hat⟩ := mem_texts_valuesOf.mp hmem
      obtain ⟨compiled, hcompiled⟩ := h.compiles d hd hat
      exact ⟨compiled.signature, compiles_compiler.mpr ⟨compiled, hcompiled, rfl⟩⟩
  · rintro ⟨hroots, hshallow, hcompiles, hharmonious⟩
    refine ⟨hroots, ?_, fun d hd => exists_compile hcompiles hd, ?_, ?_, ?_⟩
    · intro d hd steps value hat hcontainer
      have hmem : (⟨steps⟩, value) ∈ Ledger.valuesOf documents := mem_valuesOf.mpr ⟨d, hd, hat⟩
      have hdepth := hshallow (⟨steps⟩, value) hmem hcontainer
      exact Int.ofNat_lt.mp hdepth
    · intro d hd e he p q t u hp hq hbegins
      obtain ⟨_, _, -, -, hpair⟩ := exists_compatible hcompiles hharmonious hd he hp hq
      by_contra hne
      refine hpair.not_begins (KeyPath.mem_ancestors.mpr ?_)
      exact ⟨ne_root_of_at (hroots d hd) hp, hbegins, fun h => hne (congrArg KeyPath.segments h)⟩
    · intro d hd e he p q t u hp hq hkey
      obtain ⟨_, _, -, -, hpair⟩ := exists_compatible hcompiles hharmonious hd he hp hq
      exact congrArg KeyPath.segments (hpair.key hkey)
    · intro d hd e he p t u hp hq compiled other hcompiled hother
      obtain ⟨_, _, ht, hu, hpair⟩ := exists_compatible hcompiles hharmonious hd he hp hq
      rw [hcompiled] at ht
      rw [hother] at hu
      cases ht
      cases hu
      exact hpair.signature rfl

theorem exists_acceptDocuments_iff :
    (∃ l, Ledger.acceptDocuments Template.compiler 100 [] documents = .ok l) ↔
      Consistent documents := by
  rw [consistent_iff, Ledger.exists_acceptDocuments]

/-- **Documents can be merged just if they are consistent**, and else a problem is reported. -/
theorem merge_iff_consistent (documents : List Document) :
    ((∃ c, (Catalogue.merge Template.compiler documents).outcome = .ok c) ↔
        Consistent documents) ∧
      ((∃ p, (Catalogue.merge Template.compiler documents).outcome = .error (.problem p)) ↔
        ¬Consistent documents) := by
  rw [← exists_acceptDocuments_iff]
  have hagree := Catalogue.agree_merge Template.compiler documents
  have hcrash : Ledger.CrashesAs Template.compiler
      (Ledger.acceptDocuments Template.compiler 100 [] documents) :=
    Ledger.crashesAs_acceptDocuments documents []
  generalize (Catalogue.merge Template.compiler documents).outcome = merged at hagree
  generalize Ledger.acceptDocuments Template.compiler 100 [] documents = accepted at hagree hcrash
  cases hagree with
  | ok h =>
    refine ⟨⟨fun _ => ⟨_, rfl⟩, fun _ => ⟨_, rfl⟩⟩, nofun, fun hnone => ?_⟩
    exact absurd ⟨_, rfl⟩ hnone
  | error f =>
    refine ⟨⟨nofun, nofun⟩, fun _ => nofun, fun _ => ?_⟩
    cases f with
    | problem p => exact ⟨p, rfl⟩
    | crash c =>
      obtain ⟨t, ht⟩ := hcrash c rfl
      exact absurd ht (compiler_ne_crash t c)

end Consistent

end Phrasebook
