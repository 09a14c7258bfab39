import Mathlib.Data.List.Permutation
import Phrasebook.Proofs.Schema.Rewording
import Phrasebook.Proofs.Schema.Signature
import Phrasebook.Proofs.Template.Parameters

/-! # The signature of a template

A name occurs in a template as a value or as a formatter, at any depth. A template is refused just if
some name occurs as both, and then the fault names the least such name; else its signature has all
the names that occur as parameters, and those that occur as formatters as its formatters
(`extracted_compiler`). So the signatures of two templates match just if the same names occur in them
as values, and the same as formatters. -/

namespace Phrasebook.Template

/-! ### Names that occur -/

/-- **An element occurs in a template**, at some depth. -/
inductive Occurs (e : Element) : List Element → Prop where
  | here {elements : List Element} (h : e ∈ elements) : Occurs e elements
  | inside {elements body : List Element} {name : Text} (hf : .formatter name body ∈ elements)
      (h : Occurs e body) : Occurs e elements

/-- A name occurs as a value. -/
def OccursAsValue (name : Text) (elements : List Element) : Prop := Occurs (.value name) elements

/-- A name occurs as a formatter. -/
def OccursAsFormatter (name : Text) (elements : List Element) : Prop :=
  ∃ body, Occurs (.formatter name body) elements

theorem not_occurs_nil {e : Element} : ¬ Occurs e [] := by
  intro h
  cases h with
  | here h => cases h
  | inside hf => cases hf

theorem occurs_cons {e first : Element} {rest : List Element} : Occurs e (first :: rest) ↔
    e = first ∨ (∃ name body, first = .formatter name body ∧ Occurs e body) ∨ Occurs e rest := by
  constructor
  · rintro (h | ⟨hf, h⟩)
    · rcases List.mem_cons.mp h with rfl | h
      · exact .inl rfl
      · exact .inr (.inr (.here h))
    · rcases List.mem_cons.mp hf with rfl | hf
      · exact .inr (.inl ⟨_, _, rfl, h⟩)
      · exact .inr (.inr (.inside hf h))
  · rintro (rfl | ⟨name, body, rfl, h⟩ | h)
    · exact .here List.mem_cons_self
    · exact .inside List.mem_cons_self h
    · rcases h with h | ⟨hf, h⟩
      · exact .here (List.mem_cons_of_mem _ h)
      · exact .inside (List.mem_cons_of_mem _ hf) h

theorem mem_valueNames (name : Text) : ∀ elements : List Element,
    name ∈ valueNames elements ↔ OccursAsValue name elements
  | [] => by simp [valueNames, OccursAsValue, not_occurs_nil]
  | .text t :: rest => by
    have ih := mem_valueNames name rest
    simp [valueNames, ih, OccursAsValue, occurs_cons]
  | .value other :: rest => by
    have ih := mem_valueNames name rest
    simp [valueNames, ih, OccursAsValue, occurs_cons]
  | .formatter other body :: rest => by
    have ih := mem_valueNames name rest
    have ihbody := mem_valueNames name body
    simp [valueNames, ih, ihbody, OccursAsValue, occurs_cons]

theorem mem_formatterNames (name : Text) : ∀ elements : List Element,
    name ∈ formatterNames elements ↔ OccursAsFormatter name elements
  | [] => by simp [formatterNames, OccursAsFormatter, not_occurs_nil]
  | .text t :: rest => by
    have ih := mem_formatterNames name rest
    simp [formatterNames, ih, OccursAsFormatter, occurs_cons]
  | .value other :: rest => by
    have ih := mem_formatterNames name rest
    simp [formatterNames, ih, OccursAsFormatter, occurs_cons]
  | .formatter other body :: rest => by
    have ih := mem_formatterNames name rest
    have ihbody := mem_formatterNames name body
    simp [formatterNames, ih, ihbody, OccursAsFormatter, occurs_cons, exists_or]

/-! ### Names of both kinds -/

/-- A name occurs as a value and as a formatter. -/
def Clashes (name : Text) (elements : List Element) : Prop :=
  OccursAsValue name elements ∧ OccursAsFormatter name elements

/-- A name is the least one, by code point, that occurs as a value and as a formatter. -/
structure IsLeastClash (name : Text) (elements : List Element) : Prop where
  clashes : Clashes name elements
  least : ∀ other, Clashes other elements → other = name ∨ name < other

theorem mem_clashes {name : Text} {elements : List Element} :
    name ∈ clashes elements ↔ Clashes name elements := by
  unfold clashes Clashes
  rw [Sorted.mem_ofList, List.mem_filter, List.contains_iff_mem, mem_valueNames,
    mem_formatterNames]

theorem isLeastClash_of_clashes_eq_cons {name : Text} {others : List Text}
    {elements : List Element} (h : clashes elements = name :: others) :
    IsLeastClash name elements := by
  have hsorted : (name :: others).Pairwise (· < ·) := h ▸ Sorted.pairwise_ofList _
  have hmem : ∀ other, other ∈ name :: others ↔ Clashes other elements := by
    intro other
    rw [← h, mem_clashes]
  refine ⟨(hmem name).mp List.mem_cons_self, fun other hother => ?_⟩
  rcases List.mem_cons.mp ((hmem other).mpr hother) with hsame | hrest
  · exact .inl hsame
  · exact .inr (List.rel_of_pairwise_cons hsorted hrest)

/-- A template without a signature has a least name of both kinds. -/
theorem signature_eq_error {elements : List Element} {fault : SyntaxFault}
    (h : signature elements = .error fault) :
    ∃ name, IsLeastClash name elements ∧ fault = ⟨.bothKinds name, 0⟩ := by
  unfold signature at h
  split at h
  next name others hclashes =>
    exact ⟨name, isLeastClash_of_clashes_eq_cons hclashes, (Except.error.inj h).symm⟩
  · cases h

/-! ### What a signature tells -/

section Signature
variable {elements : List Element} {s : Signature} (h : signature elements = .ok s)
include h

theorem not_clashes_of_signature (name : Text) : ¬ Clashes name elements := by
  rintro ⟨hvalue, hformatter⟩
  obtain ⟨hdisjoint, -⟩ := signature_eq_ok h
  exact hdisjoint name ((mem_valueNames name elements).mpr hvalue)
    ((mem_formatterNames name elements).mpr hformatter)

theorem value_mem_signature {name : Text} :
    ⟨name, false⟩ ∈ s.parameters ↔ OccursAsValue name elements := by
  rw [mem_signature h, mem_placeholders, if_neg Bool.false_ne_true, mem_valueNames]

theorem formatter_mem_signature {name : Text} :
    ⟨name, true⟩ ∈ s.parameters ↔ OccursAsFormatter name elements := by
  rw [mem_signature h, mem_placeholders, if_pos rfl, mem_formatterNames]

theorem mem_names_signature {name : Text} :
    name ∈ s.names ↔ OccursAsValue name elements ∨ OccursAsFormatter name elements := by
  rw [← value_mem_signature h, ← formatter_mem_signature h, Signature.names, List.mem_map]
  constructor
  · rintro ⟨⟨other, kind⟩, hp, rfl⟩
    cases kind with
    | false => exact .inl hp
    | true => exact .inr hp
  · rintro (hp | hp)
    · exact ⟨_, hp, rfl⟩
    · exact ⟨_, hp, rfl⟩

theorem mem_formatters_signature {name : Text} :
    name ∈ s.formatters ↔ OccursAsFormatter name elements := by
  rw [← formatter_mem_signature h, Signature.formatters, List.mem_map]
  constructor
  · rintro ⟨⟨other, kind⟩, hp, rfl⟩
    obtain ⟨hmem, rfl⟩ := List.mem_filter.mp hp
    exact hmem
  · intro hp
    exact ⟨_, List.mem_filter.mpr ⟨hp, rfl⟩, rfl⟩

/-- No formatter of a template is missing among its parameters. -/
theorem of_names_eq_signature : Signature.of (valueNames elements ++ formatterNames elements)
    (formatterNames elements) = .ok s := by
  have hnone : Signature.undeclared (valueNames elements ++ formatterNames elements)
      (formatterNames elements) = [] := by
    unfold Signature.undeclared
    refine List.filter_eq_nil_iff.mpr fun name hname => ?_
    have hformatter := Sorted.mem_ofList.mp hname
    simp [hformatter]
  obtain ⟨-, rfl⟩ := signature_eq_ok h
  unfold Signature.of
  rw [hnone]

end Signature

/-- The same names occur in two templates as values, and the same as formatters. -/
structure SameOccurrences (elements others : List Element) : Prop where
  values : ∀ name, OccursAsValue name elements ↔ OccursAsValue name others
  formatters : ∀ name, OccursAsFormatter name elements ↔ OccursAsFormatter name others

/-- Signatures match just if the same names occur. -/
theorem isCompatible_signature_iff {elements others : List Element} {s s' : Signature}
    (h : signature elements = .ok s) (h' : signature others = .ok s') :
    s.isCompatible s' = true ↔ SameOccurrences elements others := by
  rw [Signature.isCompatible_iff]
  constructor
  · rintro rfl
    constructor
    · intro name
      rw [← value_mem_signature h, ← value_mem_signature h']
    · intro name
      rw [← formatter_mem_signature h, ← formatter_mem_signature h']
  · rintro ⟨hvalues, hformatters⟩
    have hsame : signature elements = signature others := by
      refine signature_congr (fun name => ?_) fun name => ?_
      · rw [mem_valueNames, mem_valueNames, hvalues]
      · rw [mem_formatterNames, mem_formatterNames, hformatters]
    rw [h, h'] at hsame
    exact Except.ok.inj hsame

/-! ### Extraction -/

/-- **What compiling tells of the names in a template.** -/
structure Extracted (elements : List Element) (outcome : Except CompilerFault CompiledTemplate) :
    Prop where
  /-- A template is refused just if some name occurs as a value and as a formatter. -/
  refused : (∃ fault, outcome = .error (.template fault)) ↔ ∃ name, Clashes name elements
  /-- Nothing else goes wrong, and the fault names the least such name. -/
  fault : ∀ fault, outcome = .error fault → ∃ name, IsLeastClash name elements ∧
    fault = .template (SyntaxFault.toTemplateFault ⟨.bothKinds name, 0⟩)
  /-- The parameters are the names that occur. -/
  names : ∀ compiled, outcome = .ok compiled → ∀ name, name ∈ compiled.signature.names ↔
    OccursAsValue name elements ∨ OccursAsFormatter name elements
  /-- The formatters are the names that occur as such. -/
  formatters : ∀ compiled, outcome = .ok compiled →
    ∀ name, name ∈ compiled.signature.formatters ↔ OccursAsFormatter name elements
  /-- The signature passes the check that each formatter is a parameter. -/
  declared : ∀ compiled, outcome = .ok compiled →
    Signature.of (valueNames elements ++ formatterNames elements) (formatterNames elements) =
      .ok compiled.signature

/-- What has been parsed compiles as its signature tells. -/
theorem compiler_eq_of_parse {source : Text} {elements : List Element}
    (h : parse source = .ok elements) :
    compiler source = ((signature elements).map fun s =>
      ⟨s, expressionScript s elements, fragmentScript s elements⟩).mapError
        fun f => .template f.toTemplateFault := by
  unfold compiler compile
  rw [h]
  rfl

theorem signature_of_compiler {source : Text} {elements : List Element}
    (h : parse source = .ok elements) {compiled : CompiledTemplate}
    (hc : compiler source = .ok compiled) : signature elements = .ok compiled.signature := by
  obtain ⟨found, s, hparse, hs, rfl⟩ := compile_eq_ok (compiler_eq_ok.mp hc)
  rw [h] at hparse
  obtain rfl := Except.ok.inj hparse
  exact hs

/-- **The signature of a template is that of the names that occur in it**, and signatures match just
if the same names occur as values and as formatters. -/
theorem extracted_compiler {source : Text} {elements : List Element}
    (h : parse source = .ok elements) :
    Extracted elements (compiler source) ∧
      ∀ other others compiled compiled', parse other = .ok others →
        compiler source = .ok compiled → compiler other = .ok compiled' →
          (compiled.signature.isCompatible compiled'.signature = true ↔
            SameOccurrences elements others) := by
  have hok := fun compiled => @signature_of_compiler _ _ h compiled
  have herror : ∀ fault, compiler source = .error fault → ∃ name, IsLeastClash name elements ∧
      fault = .template (SyntaxFault.toTemplateFault ⟨.bothKinds name, 0⟩) := by
    intro fault hfault
    rw [compiler_eq_of_parse h] at hfault
    cases hs : signature elements with
    | ok s =>
      rw [hs] at hfault
      cases hfault
    | error syntaxFault =>
      obtain ⟨name, hleast, rfl⟩ := signature_eq_error hs
      rw [hs] at hfault
      exact ⟨name, hleast, (Except.error.inj hfault).symm⟩
  refine ⟨⟨⟨?_, ?_⟩, herror, ?_, ?_, ?_⟩, ?_⟩
  · rintro ⟨fault, hfault⟩
    obtain ⟨name, hleast, -⟩ := herror _ hfault
    exact ⟨name, hleast.clashes⟩
  · rintro ⟨name, hclash⟩
    cases hc : compiler source with
    | ok compiled => exact absurd hclash (not_clashes_of_signature (hok compiled hc) name)
    | error fault =>
      obtain ⟨least, -, rfl⟩ := herror fault hc
      exact ⟨_, rfl⟩
  · exact fun compiled hc name => mem_names_signature (hok compiled hc)
  · exact fun compiled hc name => mem_formatters_signature (hok compiled hc)
  · exact fun compiled hc => of_names_eq_signature (hok compiled hc)
  · intro other others compiled compiled' h' hc hc'
    exact isCompatible_signature_iff (hok compiled hc) (signature_of_compiler h' hc')

/-- A template and another one with the same names in another order. -/
theorem extracted_compiler_reordered :
    let source : Text := "\x7bb:x \x7ba\x7d\x7d\x7ba\x7d"
    let other : Text := "\x7ba\x7d\x7bb:\x7bb:\x7d\x7d"
    ∃ elements others compiled compiled', parse source = .ok elements ∧ parse other = .ok others ∧
      compiler source = .ok compiled ∧ compiler other = .ok compiled' ∧
        Extracted elements (compiler source) ∧
          (compiled.signature.isCompatible compiled'.signature = true ↔
            SameOccurrences elements others) := by
  intro source other
  let elements : List Element := [.formatter "b" [.text "x ", .value "a"], .value "a"]
  let others : List Element := [.value "a", .formatter "b" [.formatter "b" []]]
  have hparse : parse source = .ok elements := rfl
  have hparse' : parse other = .ok others := rfl
  have hok : (compiler "\x7bb:x \x7ba\x7d\x7d\x7ba\x7d").isOk = true := by cbv
  have hok' : (compiler "\x7ba\x7d\x7bb:\x7bb:\x7d\x7d").isOk = true := by cbv
  obtain ⟨compiled, hc⟩ := Except.exists_eq_ok hok
  obtain ⟨compiled', hc'⟩ := Except.exists_eq_ok hok'
  obtain ⟨hextracted, hmatch⟩ := extracted_compiler hparse
  exact ⟨elements, others, compiled, compiled', hparse, hparse', hc, hc', hextracted,
    hmatch other others compiled compiled' hparse' hc hc'⟩

end Phrasebook.Template
