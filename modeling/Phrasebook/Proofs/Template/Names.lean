import Mathlib.Tactic.SplitIfs
import Phrasebook.Template.Compiler

/-! # Names in templates

The reader puts only well-formed names into its elements (`wellNamed_parse`), and the signature of a
template lists exactly the names of its placeholders, a name of a value and a name of a formatter
never being the same (`mem_signature_of_value`, `mem_signature_of_formatter`). -/

namespace Phrasebook.Template

/-! ### Well-formed names -/

/-- **The names of an element are well formed**, at any depth. -/
inductive Element.WellNamed : Element → Prop where
  | text (t : Text) : WellNamed (.text t)
  | value {name : Text} (h : isName name) : WellNamed (.value name)
  | formatter {name : Text} {body : List Element} (h : isName name)
      (hbody : ∀ e ∈ body, WellNamed e) : WellNamed (.formatter name body)

theorem Element.WellNamed.isName_of_value {name : Text}
    (h : Element.WellNamed (.value name)) : isName name := by
  cases h with
  | value h => exact h

theorem Element.WellNamed.of_formatter {name : Text} {body : List Element}
    (h : Element.WellNamed (.formatter name body)) : isName name ∧ ∀ e ∈ body, e.WellNamed := by
  cases h with
  | formatter h hbody => exact ⟨h, hbody⟩

/-- All elements have well-formed names. -/
def WellNamed (elements : List Element) : Prop := ∀ e ∈ elements, e.WellNamed

theorem isName_append {name : Text} {c : CodePoint} (h : isName name) (hc : isNamePart c) :
    isName (name ++ [c]) := by
  cases name with
  | nil => simp [isName] at h
  | cons first rest =>
    simp only [isName, Bool.and_eq_true] at h
    simp [isName, h.1, h.2, hc]

theorem isNamePart_of_mem {name : Text} (h : isName name) {c : CodePoint} (hc : c ∈ name) :
    isNamePart c = true := by
  cases name with
  | nil => cases hc
  | cons first rest =>
    simp only [isName, Bool.and_eq_true, List.all_eq_true] at h
    rcases List.mem_cons.mp hc with rfl | hc
    · simp [isNamePart, h.1]
    · exact h.2 c hc

/-- What is no part of a name does not stand in one. -/
theorem not_mem_of_isName {name : Text} (h : isName name) {c : CodePoint}
    (hc : isNamePart c = false) : c ∉ name := by
  intro hmem
  rw [isNamePart_of_mem h hmem] at hc
  cases hc

namespace State

/-- The names read so far are well formed. -/
structure WellNamed (s : State) : Prop where
  elements : Template.WellNamed s.elements
  frames : ∀ f ∈ s.stack, isName f.name ∧ Template.WellNamed f.before
  naming : ∀ letters, s.mode = .naming letters → isName letters.reverse
  named : ∀ name, s.mode = .named name → isName name

theorem WellNamed.flushed {s : State} (h : s.WellNamed) : Template.WellNamed s.flushed := by
  unfold State.flushed
  split
  · exact h.elements
  · exact List.forall_mem_cons.mpr ⟨.text _, h.elements⟩

theorem WellNamed.flushed_reverse {s : State} (h : s.WellNamed) :
    Template.WellNamed s.flushed.reverse :=
  fun e he => h.flushed e (List.mem_reverse.mp he)

theorem wellNamed_textStep {s s' : State} {c : CodePoint} (h : s.WellNamed)
    (hm : s.mode = .text) (hs : s.textStep c = .ok s') : s'.WellNamed := by
  unfold textStep at hs
  split_ifs at hs with h1 h2 h3
  · cases hs
    exact ⟨h.elements, h.frames, by simp, by simp⟩
  · cases hs
    exact ⟨h.flushed, h.frames, by simp, by simp⟩
  · cases hf : s.stack with
    | nil => simp [hf] at hs
    | cons frame stack =>
      simp only [hf, Except.ok.injEq] at hs
      subst hs
      have hframes := h.frames
      rw [hf] at hframes
      obtain ⟨⟨hname, hbefore⟩, hrest⟩ := List.forall_mem_cons.mp hframes
      exact ⟨List.forall_mem_cons.mpr ⟨.formatter hname h.flushed_reverse, hbefore⟩, hrest,
        by simp, by simp⟩
  · cases hs
    exact ⟨h.elements, h.frames, by simp [hm], by simp [hm]⟩

theorem wellNamed_nameEndStep {s s' : State} {name : Text} {c : CodePoint} (h : s.WellNamed)
    (hn : isName name) (hs : s.nameEndStep name c = .ok s') : s'.WellNamed := by
  unfold nameEndStep at hs
  split_ifs at hs with h1 h2 h3
  · cases hs
    exact ⟨h.elements, h.frames, by simp, by simp [hn]⟩
  · cases hs
    exact ⟨List.forall_mem_cons.mpr ⟨.value hn, h.elements⟩, h.frames, by simp [placed],
      by simp [placed]⟩
  · cases hs
    exact ⟨by simp [bodyOpened, Template.WellNamed],
      List.forall_mem_cons.mpr ⟨⟨hn, h.elements⟩, h.frames⟩, by simp [bodyOpened],
      by simp [bodyOpened]⟩

/-- Names stay well formed. -/
theorem wellNamed_step {s s' : State} {c : CodePoint} (h : s.WellNamed) (hs : s.step c = .ok s') :
    s'.WellNamed := by
  unfold step at hs
  split at hs
  next hm => exact wellNamed_textStep h hm hs
  next hm =>
    split_ifs at hs <;> cases hs <;> exact ⟨h.elements, h.frames, by simp, by simp⟩
  next hm =>
    split_ifs at hs with h1 h2
    · cases hs
      exact h
    · cases hs
      exact ⟨h.elements, h.frames, by simp [isName, h2], by simp⟩
  next letters hm =>
    have hn := h.naming letters hm
    split_ifs at hs with h1
    · cases hs
      refine ⟨h.elements, h.frames, fun l hl => ?_, by simp⟩
      cases hl
      rw [List.reverse_cons]
      exact isName_append hn h1
    · exact wellNamed_nameEndStep h hn hs
  next name hm => exact wellNamed_nameEndStep h (h.named name hm) hs

theorem wellNamed_finish {s : State} {elements : List Element} (h : s.WellNamed)
    (hs : s.finish = .ok elements) : Template.WellNamed elements := by
  unfold finish at hs
  split at hs
  · cases hs
  · cases hs
  · cases hs
  · split_ifs at hs
    cases hs
    exact h.flushed_reverse
  · split_ifs at hs
    cases hs
    have hp : State.WellNamed { s with pending := CodePoint.backslash :: s.pending } :=
      ⟨h.elements, h.frames, h.naming, h.named⟩
    exact hp.flushed_reverse

theorem wellNamed_run {source : Text} {s : State} {position : Nat} {elements : List Element}
    (h : s.WellNamed) (hs : run s position source = .ok elements) :
    Template.WellNamed elements := by
  induction source generalizing s position with
  | nil =>
    simp only [run] at hs
    cases hf : s.finish with
    | error reason => simp [hf, Except.mapError] at hs
    | ok result =>
      simp only [hf, Except.mapError, Except.ok.injEq] at hs
      subst hs
      exact wellNamed_finish h hf
  | cons c rest ih =>
    simp only [run] at hs
    split at hs
    · next s' hstep => exact ih (wellNamed_step h hstep) hs
    · cases hs

end State

/-- **The elements of a template have well-formed names.** -/
theorem wellNamed_parse {source : Text} {elements : List Element}
    (h : parse source = .ok elements) : WellNamed elements :=
  State.wellNamed_run ⟨by simp [WellNamed], by simp, by simp, by simp⟩ h

/-- **What holds of all interpolations** of a template with well-formed names: of a parameter, and of
a formatter if it holds of the interpolations of its body. -/
theorem forall_chunks {P : Fragment → Prop}
    (value : ∀ {name : Text}, isName name → P (.plain (parameterScript name)))
    (formatter : ∀ {name : Text} {body : List Element}, isName name →
      (∀ p ∈ (chunks body).2, P p.1) →
        P (.code (applicationScript name (Code.template (chunks body).1 (chunks body).2)))) :
    ∀ elements : List Element, WellNamed elements → ∀ p ∈ (chunks elements).2, P p.1
  | [], _ => by
    rw [chunks]
    exact List.forall_mem_nil _
  | .text t :: rest, h => by
    rw [chunks]
    exact forall_chunks value formatter rest (List.forall_mem_cons.mp h).2
  | .value name :: rest, h => by
    obtain ⟨hvalue, hrest⟩ := List.forall_mem_cons.mp h
    rw [chunks]
    exact List.forall_mem_cons.mpr ⟨value hvalue.isName_of_value,
      forall_chunks value formatter rest hrest⟩
  | .formatter name body :: rest, h => by
    obtain ⟨hformatter, hrest⟩ := List.forall_mem_cons.mp h
    obtain ⟨hname, hbody⟩ := hformatter.of_formatter
    rw [chunks]
    exact List.forall_mem_cons.mpr ⟨formatter hname (forall_chunks value formatter body hbody),
      forall_chunks value formatter rest hrest⟩

/-! ### Signatures -/

theorem clashes_eq_nil {elements : List Element} :
    clashes elements = [] ↔ ∀ name ∈ valueNames elements, name ∉ formatterNames elements := by
  simp only [List.eq_nil_iff_forall_not_mem, clashes, Sorted.mem_ofList, List.mem_filter,
    List.contains_iff_mem, not_and]

/-- A template with a signature has no name of both kinds, and the signature is that of its
names. -/
theorem signature_eq_ok {elements : List Element} {s : Signature}
    (h : signature elements = .ok s) :
    (∀ name ∈ valueNames elements, name ∉ formatterNames elements) ∧
      s = Signature.ofNames (valueNames elements ++ formatterNames elements)
        (formatterNames elements) := by
  unfold signature at h
  split at h
  · cases h
  next hc => exact ⟨clashes_eq_nil.mp hc, (Except.ok.inj h).symm⟩

theorem mem_ofNames {params formatters : List Text} {p : Parameter} :
    p ∈ (Signature.ofNames params formatters).parameters ↔
      p.name ∈ params ∧ p.isFormatter = formatters.contains p.name := by
  simp only [Signature.ofNames, List.mem_map, Sorted.mem_ofList]
  constructor
  · rintro ⟨name, hname, rfl⟩
    exact ⟨hname, rfl⟩
  · rintro ⟨hname, hkind⟩
    exact ⟨p.name, hname, by rw [← hkind]⟩

/-- The name of a value is a parameter that is no formatter. -/
theorem mem_signature_of_value {elements : List Element} {s : Signature}
    (h : signature elements = .ok s) {name : Text} (hn : name ∈ valueNames elements) :
    ⟨name, false⟩ ∈ s.parameters := by
  obtain ⟨hdisjoint, rfl⟩ := signature_eq_ok h
  rw [mem_ofNames]
  exact ⟨List.mem_append_left _ hn, by simp [hdisjoint name hn]⟩

/-- The name of a formatter is a parameter that is a formatter. -/
theorem mem_signature_of_formatter {elements : List Element} {s : Signature}
    (h : signature elements = .ok s) {name : Text} (hn : name ∈ formatterNames elements) :
    ⟨name, true⟩ ∈ s.parameters := by
  obtain ⟨-, rfl⟩ := signature_eq_ok h
  rw [mem_ofNames]
  exact ⟨List.mem_append_right _ hn, by simp [hn]⟩

theorem compile_eq_ok {source : Text} {compiled : CompiledTemplate}
    (h : compile source = .ok compiled) :
    ∃ elements s, parse source = .ok elements ∧ signature elements = .ok s ∧
      compiled = ⟨s, expressionScript s elements, fragmentScript s elements⟩ := by
  unfold compile at h
  cases hp : parse source with
  | error f => simp [hp, Except.bind] at h
  | ok elements =>
    simp only [hp, Except.bind, compileElements] at h
    cases hs : signature elements with
    | error f => simp [hs, Except.map] at h
    | ok s =>
      simp only [hs, Except.map, Except.ok.injEq] at h
      exact ⟨elements, s, rfl, hs, h.symm⟩

theorem compiler_eq_ok {source : Text} {compiled : CompiledTemplate} :
    compiler source = .ok compiled ↔ compile source = .ok compiled := by
  unfold compiler
  cases compile source with
  | ok found =>
    constructor
    · rintro ⟨⟩
      rfl
    · rintro ⟨⟩
      rfl
  | error f => exact ⟨nofun, nofun⟩

end Phrasebook.Template
