import Phrasebook.Proofs.Script.Render
import Phrasebook.Proofs.Script.Scan
import Phrasebook.Proofs.Template.Names

/-! # The meaning of templates

A template means a text once its parameters are given: literal text stands for itself, a value for
what is given under its name, a formatter for the given function applied to the meaning of its body.
The script that a template compiles to is read back as a whole and gives just this text
(`value_read_compile`). -/

namespace Phrasebook.Template

open Script (Arguments Argument Expression Program)

/-- **The text that a template means** under given arguments. -/
def meaning (a : Arguments) : List Element → Option Text
  | [] => some []
  | .text t :: rest => (meaning a rest).map (t ++ ·)
  | .value name :: rest => (a.text? name).bind fun t => (meaning a rest).map (t ++ ·)
  | .formatter name body :: rest =>
    (a.formatter? name).bind fun f =>
      (meaning a body).bind fun t => (meaning a rest).map (f t ++ ·)

/-- The arguments give each value of a signature a text and each formatter a function. -/
def Fits (a : Arguments) (s : Signature) : Prop :=
  ∀ p ∈ s.parameters, ∃ argument, a p.name = some argument ∧ argument.isFormatter = p.isFormatter

/-! ### Arguments that fit -/

theorem Fits.text? {a : Arguments} {s : Signature} (h : Fits a s) {name : Text}
    (hn : ⟨name, false⟩ ∈ s.parameters) : ∃ t, a.text? name = some t := by
  obtain ⟨argument, ha, hkind⟩ := h _ hn
  cases argument with
  | text t => exact ⟨t, by simp only [Arguments.text?, ha]⟩
  | formatter f => cases hkind

theorem Fits.formatter? {a : Arguments} {s : Signature} (h : Fits a s) {name : Text}
    (hn : ⟨name, true⟩ ∈ s.parameters) : ∃ f, a.formatter? name = some f := by
  obtain ⟨argument, ha, hkind⟩ := h _ hn
  cases argument with
  | text t => cases hkind
  | formatter f => exact ⟨f, by simp only [Arguments.formatter?, ha]⟩

theorem exists_meaning {a : Arguments} : ∀ (elements : List Element),
    (∀ name ∈ valueNames elements, ∃ t, a.text? name = some t) →
      (∀ name ∈ formatterNames elements, ∃ f, a.formatter? name = some f) →
        ∃ t, meaning a elements = some t
  | [], _, _ => ⟨[], by simp [meaning]⟩
  | .text t :: rest, hv, hf => by
    simp only [valueNames, formatterNames] at hv hf
    obtain ⟨u, hu⟩ := exists_meaning rest hv hf
    exact ⟨t ++ u, by simp [meaning, hu]⟩
  | .value name :: rest, hv, hf => by
    simp only [valueNames, formatterNames, List.forall_mem_cons] at hv hf
    obtain ⟨t, ht⟩ := hv.1
    obtain ⟨u, hu⟩ := exists_meaning rest hv.2 hf
    exact ⟨t ++ u, by simp [meaning, ht, hu]⟩
  | .formatter name body :: rest, hv, hf => by
    simp only [valueNames, formatterNames, List.forall_mem_cons, List.forall_mem_append] at hv hf
    obtain ⟨f, hname⟩ := hf.1
    obtain ⟨t, ht⟩ := exists_meaning body hv.1 hf.2.1
    obtain ⟨u, hu⟩ := exists_meaning rest hv.2 hf.2.2
    exact ⟨f t ++ u, by simp [meaning, hname, ht, hu]⟩

/-- Under arguments that fit its signature a template has a meaning. -/
theorem Fits.exists_meaning {a : Arguments} {elements : List Element} {s : Signature}
    (h : Fits a s) (hs : signature elements = .ok s) : ∃ t, meaning a elements = some t :=
  Template.exists_meaning elements (fun _ hn => h.text? (mem_signature_of_value hs hn))
    fun _ hn => h.formatter? (mem_signature_of_formatter hs hn)

/-! ### The template literal of a template -/

/-- The parts of the template literal of a template, and the text at its end, when a text stands
before the template. -/
def literalParts (before : Text) : List Element → List (Text × Expression) × Text
  | [] => ([], before)
  | .text t :: rest => literalParts (before ++ t) rest
  | .value name :: rest =>
    ((before, .parameter name) :: (literalParts [] rest).1, (literalParts [] rest).2)
  | .formatter name body :: rest =>
    ((before, .application name (.template (literalParts [] body).1 (literalParts [] body).2)) ::
      (literalParts [] rest).1, (literalParts [] rest).2)

/-- The template literal of a template as an expression. -/
def literalExpression (elements : List Element) : Expression :=
  .template (literalParts [] elements).1 (literalParts [] elements).2

theorem value_literalParts (a : Arguments) : ∀ (elements : List Element) (before : Text),
    Expression.value a
        (.template (literalParts before elements).1 (literalParts before elements).2) =
      (meaning a elements).map (before ++ ·)
  | [], before => by simp [literalParts, Expression.value, Expression.valueOfParts, meaning]
  | .text t :: rest, before => by
    rw [literalParts, value_literalParts a rest, meaning, Option.map_map]
    congr 1
    funext u
    exact List.append_assoc before t u
  | .value name :: rest, before => by
    have ih := value_literalParts a rest []
    simp only [literalParts, meaning, Expression.value, Expression.valueOfParts] at ih ⊢
    cases ht : a.text? name with
    | none => rfl
    | some t =>
      cases hp : Expression.valueOfParts a (literalParts [] rest).1 with
      | none => cases hm : meaning a rest <;> simp_all
      | some others => cases hm : meaning a rest <;> simp_all
  | .formatter name body :: rest, before => by
    have ihbody := value_literalParts a body []
    have ih := value_literalParts a rest []
    simp only [literalParts, meaning, Expression.value, Expression.valueOfParts] at ihbody ih ⊢
    rw [ihbody]
    cases hf : a.formatter? name with
    | none => rfl
    | some f =>
      cases ht : meaning a body with
      | none => rfl
      | some t =>
        cases hp : Expression.valueOfParts a (literalParts [] rest).1 with
        | none => cases hm : meaning a rest <;> simp_all
        | some others => cases hm : meaning a rest <;> simp_all

/-- The template literal gives the meaning. -/
theorem value_literalExpression (a : Arguments) (elements : List Element) :
    (literalExpression elements).value a = meaning a elements := by
  unfold literalExpression
  rw [value_literalParts]
  simp

/-! ### Reading the script back -/

section Reading
open Script.State (run)
variable {stack : List Script.Frame} {parts : List (Text × Expression)} {before letters : Text}

theorem run_parameterScript {name : Text} (h : isName name) (rest : Text) :
    run ⟨stack, .start⟩ (parameterScript name ++ rest) =
      run ⟨stack, .naming name.reverse⟩ rest := by
  cases name with
  | nil => cases h
  | cons first others =>
    simp only [isName, Bool.and_eq_true, List.all_eq_true] at h
    exact Script.State.run_parameter h.1 h.2

theorem reverse_eq_cons_of_isName {name : Text} (h : isName name) :
    ∃ letter others, name.reverse = letter :: others := by
  cases hr : name.reverse with
  | nil =>
    rw [List.reverse_eq_nil_iff] at hr
    rw [hr] at h
    cases h
  | cons letter others => exact ⟨letter, others, rfl⟩

/-- An interpolation that is a parameter is read back. -/
theorem run_value {name : Text} (h : isName name) (rest : Text) :
    run ⟨stack, .literal (.template parts) letters⟩
        (Code.interpolationStart ++ parameterScript name ++ Code.interpolationEnd ++ rest) =
      run ⟨stack, .literal (.template ((letters.reverse, .parameter name) :: parts)) []⟩ rest := by
  have hname := reverse_eq_cons_of_isName h
  obtain ⟨letter, others, hr⟩ := hname
  have hclose : run ⟨.interpolation parts letters.reverse :: stack, .naming (letter :: others)⟩
      (Code.interpolationEnd ++ rest) =
        run ⟨stack, .literal (.template
          ((letters.reverse, .parameter (letter :: others).reverse) :: parts)) []⟩ rest := rfl
  rw [List.append_assoc, List.append_assoc, Script.State.run_openInterpolation,
    run_parameterScript h, hr, hclose, ← hr, List.reverse_reverse]

/-- An interpolation that applies a parameter to a template literal is read up to the text of that
literal. -/
theorem run_openApplication {name : Text} (h : isName name) (rest : Text) :
    run ⟨stack, .literal (.template parts) letters⟩
        (Code.interpolationStart ++ parameterScript name ++
          CodePoint.ofChar '(' :: CodePoint.backtick :: rest) =
      run ⟨.argument name :: .interpolation parts letters.reverse :: stack,
        .literal (.template []) []⟩ rest := by
  obtain ⟨letter, others, hr⟩ := reverse_eq_cons_of_isName h
  have hopen : run ⟨.interpolation parts letters.reverse :: stack, .naming (letter :: others)⟩
      (CodePoint.ofChar '(' :: CodePoint.backtick :: rest) =
        run ⟨.argument (letter :: others).reverse :: .interpolation parts letters.reverse :: stack,
          .literal (.template []) []⟩ rest := rfl
  rw [List.append_assoc, Script.State.run_openInterpolation, run_parameterScript h, hr, hopen, ← hr,
    List.reverse_reverse]

theorem run_closeApplication {name : Text} {e : Expression} (rest : Text) :
    run ⟨.argument name :: .interpolation parts before :: stack, .complete e⟩
        (CodePoint.ofChar ')' :: (Code.interpolationEnd ++ rest)) =
      run ⟨stack, .literal (.template ((before, .application name e) :: parts)) []⟩ rest := rfl

theorem render_applicationScript (name : Text) (body : Code) :
    (applicationScript name body).render =
      parameterScript name ++ CodePoint.ofChar '(' :: (body.render ++ [CodePoint.ofChar ')']) := by
  unfold applicationScript
  rw [Code.render_concat]
  simp only [List.map_cons, List.map_nil, List.flatten_cons, List.flatten_nil,
    Fragment.render_plain, Fragment.render_code, List.append_assoc]
  rfl

theorem run_chunks : ∀ (elements : List Element), WellNamed elements →
    ∀ (stack : List Script.Frame) (parts : List (Text × Expression)) (letters rest : Text),
      run ⟨stack, .literal (.template parts) letters⟩
          (Code.templateRest (chunks elements).1 (chunks elements).2 ++ rest) =
        run ⟨stack, .complete (.template
          (parts.reverse ++ (literalParts letters.reverse elements).1)
          (literalParts letters.reverse elements).2)⟩ rest
  | [], _, stack, parts, letters, rest => by
    have hclose : run ⟨stack, .literal (.template parts) letters⟩ (CodePoint.backtick :: rest) =
        run ⟨stack, .complete (.template parts.reverse letters.reverse)⟩ rest := rfl
    rw [chunks, literalParts, Code.templateRest_nil, List.singleton_append, List.append_nil, hclose]
  | .text t :: others, h, stack, parts, letters, rest => by
    have ih := run_chunks others (List.forall_mem_cons.mp h).2 stack parts (t.reverse ++ letters)
      rest
    rw [List.reverse_append, List.reverse_reverse] at ih
    rw [chunks, literalParts, Code.templateRest_append, List.append_assoc,
      Script.State.run_templateText, ih]
  | .value name :: others, h, stack, parts, letters, rest => by
    obtain ⟨hvalue, hothers⟩ := List.forall_mem_cons.mp h
    have hname : isName name := hvalue.isName_of_value
    have ih := run_chunks others hothers stack ((letters.reverse, .parameter name) :: parts) [] rest
    simp only [List.reverse_cons, List.append_assoc, List.singleton_append] at ih
    rw [chunks, literalParts, Code.templateRest_cons, List.append_assoc, Fragment.render_plain,
      run_value hname, ih, List.reverse_nil]
  | .formatter name body :: others, h, stack, parts, letters, rest => by
    obtain ⟨hformatter, hothers⟩ := List.forall_mem_cons.mp h
    obtain ⟨hname, hbody⟩ := hformatter.of_formatter
    have ih := run_chunks others hothers stack ((letters.reverse, .application name
      (literalExpression body)) :: parts) [] rest
    have ihbody := run_chunks body hbody (.argument name ::
      .interpolation parts letters.reverse :: stack) [] []
    simp only [List.reverse_cons, List.append_assoc, List.singleton_append] at ih
    rw [chunks, literalParts, Code.templateRest_cons, List.append_assoc, Fragment.render_code,
      render_applicationScript, Code.render_template]
    have hopen := @run_openApplication stack parts letters name hname
      (Code.templateRest (chunks body).1 (chunks body).2 ++ CodePoint.ofChar ')' ::
        (Code.interpolationEnd ++ (Code.templateRest (chunks others).1 (chunks others).2 ++ rest)))
    simp only [List.append_assoc, List.cons_append, List.nil_append] at hopen ⊢
    rw [hopen, ihbody, run_closeApplication]
    exact ih

theorem readExpression_literalScript {elements : List Element} (h : WellNamed elements) :
    Script.readExpression (literalScript elements).render = some (literalExpression elements) := by
  have hrun := run_chunks elements h [] [] [] []
  rw [List.append_nil] at hrun
  have hopen : run {} (CodePoint.backtick ::
      Code.templateRest (chunks elements).1 (chunks elements).2) =
        run ⟨[], .literal (.template []) []⟩
          (Code.templateRest (chunks elements).1 (chunks elements).2) := rfl
  unfold Script.readExpression literalScript
  rw [Code.render_template, hopen, hrun]
  rfl

end Reading

theorem read_function {t : Text} {e : Expression} (h : Script.readExpression t = some e) :
    Script.read (functionHead ++ t) = some (.function e) := by
  have hdrop : Text.dropBeginning? Script.functionOpening (functionHead ++ t) = some t :=
    Text.dropBeginning?_append _ t
  unfold Script.read
  simp only [hdrop, h, Option.map_some]

theorem read_quoted (t : Text) : Script.read t.quoted = some (.constant (.string t)) := by
  have hread : Script.readExpression t.quoted = some (.string t) := by
    have hrun := @Script.State.run_quoted [] [] t
    rw [List.append_nil] at hrun
    unfold Script.readExpression
    rw [hrun]
    rfl
  have hdrop : Text.dropBeginning? Script.functionOpening t.quoted = none := by
    rw [Text.quoted_eq]
    rfl
  unfold Script.read
  simp only [hdrop, hread, Option.map_some]

/-! ### Templates without parameters -/

theorem meaning_of_no_names (a : Arguments) : ∀ (elements : List Element),
    valueNames elements = [] → formatterNames elements = [] →
      meaning a elements = some (texts elements).flatten
  | [], _, _ => by simp [meaning, texts]
  | .text t :: rest, hv, hf => by
    rw [valueNames] at hv
    rw [formatterNames] at hf
    have ih := meaning_of_no_names a rest hv hf
    rw [meaning, ih]
    rfl
  | .value name :: rest, hv, _ => by
    rw [valueNames] at hv
    cases hv
  | .formatter name body :: rest, _, hf => by
    rw [formatterNames] at hf
    cases hf

theorem meaning_of_isEmpty {elements : List Element} {s : Signature}
    (h : signature elements = .ok s) (he : s.isEmpty) (a : Arguments) :
    meaning a elements = some (texts elements).flatten := by
  have hnone : s.parameters = [] := List.isEmpty_iff.mp he
  have hv : valueNames elements = [] := List.eq_nil_iff_forall_not_mem.mpr fun name hname => by
    have hmem := mem_signature_of_value h hname
    rw [hnone] at hmem
    cases hmem
  have hf : formatterNames elements = [] := List.eq_nil_iff_forall_not_mem.mpr fun name hname => by
    have hmem := mem_signature_of_formatter h hname
    rw [hnone] at hmem
    cases hmem
  exact meaning_of_no_names a elements hv hf

/-! ### The script of a template -/

/-- **Compilation keeps the meaning.** The script of a template, read back as a whole, gives under
all arguments that fit the signature the text that the template means. -/
theorem value_read_compile {source : Text} {compiled : CompiledTemplate}
    (h : compile source = .ok compiled) {a : Arguments} (fits : Fits a compiled.signature) :
    ∃ elements program t, parse source = .ok elements ∧
      Script.read compiled.expression = some program ∧
        meaning a elements = some t ∧ program.value a = some t := by
  obtain ⟨elements, s, hparse, hs, rfl⟩ := compile_eq_ok h
  obtain ⟨t, ht⟩ := fits.exists_meaning hs
  refine ⟨elements, ?_⟩
  unfold expressionScript
  split_ifs with he
  · refine ⟨.constant (.string (texts elements).flatten), t, hparse, read_quoted _, ht, ?_⟩
    rw [← ht, meaning_of_isEmpty hs he a]
    simp [Program.value, Expression.value]
  · have hread := readExpression_literalScript (wellNamed_parse hparse)
    refine ⟨.function (literalExpression elements), t, hparse, read_function hread, ht, ?_⟩
    rw [Program.value, value_literalExpression, ht]

/-- A template with special code points, a lone surrogate, and a formatter around a value. -/
theorem value_read_compile_nested :
    let source : Text := Text.ofString "\"`$\\\x7b\n\x7bb:x \x7b name \x7d" ++
      [⟨0xD800, by decide⟩, CodePoint.closeBrace]
    let a : Arguments := fun name =>
      some (if name = "b" then .formatter fun t => "<" ++ t ++ ">" else .text "`")
    ∃ compiled, compile source = .ok compiled ∧ Fits a compiled.signature ∧
      ∃ elements program t, parse source = .ok elements ∧
        Script.read compiled.expression = some program ∧
          meaning a elements = some t ∧ program.value a = some t := by
  intro source a
  let elements : List Element := [.text "\"`$\x7b\n",
    .formatter "b" [.text "x ", .value "name", .text [⟨0xD800, by decide⟩]]]
  have hparse : parse source = .ok elements := rfl
  have hv : valueNames elements = [Text.ofString "name"] := by simp [elements, valueNames]
  have hf : formatterNames elements = [Text.ofString "b"] := by simp [elements, formatterNames]
  let s := Signature.ofNames ["name", "b"] ["b"]
  have hs : signature elements = .ok s := by
    unfold signature clashes
    rw [hv, hf]
    rfl
  have hcompile : compile source =
      .ok ⟨s, expressionScript s elements, fragmentScript s elements⟩ := by
    unfold compile
    rw [hparse, Except.bind, compileElements, hs]
    rfl
  have fits : Fits a s := by
    have hlist : s.parameters = [⟨"b", true⟩, ⟨"name", false⟩] := rfl
    intro p hp
    rw [hlist] at hp
    rcases List.mem_cons.mp hp with rfl | hp
    · exact ⟨_, rfl, rfl⟩
    · obtain rfl := List.mem_singleton.mp hp
      exact ⟨_, rfl, rfl⟩
  exact ⟨_, hcompile, fits, value_read_compile hcompile fits⟩

end Phrasebook.Template
