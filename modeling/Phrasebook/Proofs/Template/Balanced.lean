import Phrasebook.Proofs.Script.Balanced
import Phrasebook.Proofs.Template.Names

/-! # The script of templates is balanced

Whatever text a template holds, the two scripts that it compiles to are balanced
(`balanced_compile`). The texts are spelled inside literals; what stands outside of literals are the
brackets of the compiler and the names of parameters, which the reader of templates has checked. -/

namespace Phrasebook.Template

open Lexer

theorem balanced_parameterScript {name : Text} (h : isName name) :
    Balanced (parameterScript name) := by
  have hparams : Balanced "params." := by decide
  exact hparams.append (balanced_name h)

theorem balanced_applicationScript {name : Text} (h : isName name) {body : Code}
    (hbody : Balanced body.render) : Balanced (applicationScript name body).render := by
  have henclose : Encloses "(" ")" := ⟨_, rfl, rfl⟩
  exact balanced_bracketed ((balanced_parameterScript h).encloses henclose) hbody

/-! ### The template literal -/

/-- The interpolations of a template are balanced. -/
theorem balanced_chunks (elements : List Element) (h : WellNamed elements) :
    ∀ p ∈ (chunks elements).2, Balanced p.1.render :=
  forall_chunks (P := fun f => Balanced f.render) balanced_parameterScript
    (fun hname hbody => balanced_applicationScript hname (balanced_template hbody)) elements h

/-! ### The list of parts -/

theorem balanced_list {items : List Fragment} (h : ∀ f ∈ items, Balanced f.render) :
    Balanced (Code.concat [Fragment.plain "[", Code.join (Fragment.plain ", ") items,
      Fragment.plain "]"]).render := by
  have henclose : Encloses "[" "]" := ⟨_, rfl, rfl⟩
  exact balanced_bracketedList henclose (by decide) h

theorem balanced_partItems : ∀ (elements : List Element), WellNamed elements →
    ∀ f ∈ partItems elements, Balanced f.render
  | [], _ => by
    rw [partItems]
    exact List.forall_mem_nil _
  | .text t :: rest, h => by
    rw [partItems]
    exact List.forall_mem_cons.mpr ⟨balanced_quoted t,
      balanced_partItems rest (List.forall_mem_cons.mp h).2⟩
  | .value name :: rest, h => by
    obtain ⟨hvalue, hrest⟩ := List.forall_mem_cons.mp h
    rw [partItems]
    exact List.forall_mem_cons.mpr ⟨balanced_parameterScript hvalue.isName_of_value,
      balanced_partItems rest hrest⟩
  | .formatter name body :: rest, h => by
    obtain ⟨hformatter, hrest⟩ := List.forall_mem_cons.mp h
    obtain ⟨hname, hbody⟩ := hformatter.of_formatter
    rw [partItems]
    exact List.forall_mem_cons.mpr ⟨balanced_applicationScript hname
      (balanced_list (balanced_partItems body hbody)), balanced_partItems rest hrest⟩

/-! ### What a template compiles to -/

theorem balanced_function {t : Text} (h : Balanced t) : Balanced (functionHead ++ t) := by
  have hhead : Balanced functionHead := by decide
  exact hhead.append h

/-- **Both scripts of a template are balanced.** -/
theorem balanced_compile {source : Text} {compiled : CompiledTemplate}
    (h : compile source = .ok compiled) :
    Balanced compiled.expression ∧ ∀ t, compiled.fragment = some t → Balanced t := by
  obtain ⟨elements, s, hparse, -, rfl⟩ := compile_eq_ok h
  have hnames := wellNamed_parse hparse
  constructor
  · show Balanced (expressionScript s elements)
    unfold expressionScript
    split_ifs
    · exact balanced_quoted _
    · exact balanced_function (balanced_template (balanced_chunks elements hnames))
  · intro t ht
    have hfragment : fragmentScript s elements = some t := ht
    unfold fragmentScript at hfragment
    split_ifs at hfragment
    cases hfragment
    exact balanced_function (balanced_list (balanced_partItems elements hnames))

/-- The same of the compiler as a stage of a merge. -/
theorem balanced_compiler {source : Text} {compiled : CompiledTemplate}
    (h : compiler source = .ok compiled) :
    Balanced compiled.expression ∧ ∀ t, compiled.fragment = some t → Balanced t :=
  balanced_compile (compiler_eq_ok.mp h)

end Phrasebook.Template
