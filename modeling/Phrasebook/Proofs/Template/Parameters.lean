import Mathlib.Data.List.Forall2
import Phrasebook.Proofs.Script.Parameters
import Phrasebook.Proofs.Template.Meaning

/-! # The parameters of templates

Both scripts of a template, read back, use just the parameters of its signature, each in the way that
the signature tells (`uses_compile`). The list of parts is read as an array literal
(`readExpression_partsScript`). -/

namespace Phrasebook.Template

open Script (Expression Program)

/-! ### Placeholders -/

/-- The parameters that stand in a template, at any depth, from left to right. -/
def placeholders : List Element → List Parameter
  | [] => []
  | .text _ :: rest => placeholders rest
  | .value name :: rest => ⟨name, false⟩ :: placeholders rest
  | .formatter name body :: rest => ⟨name, true⟩ :: (placeholders body ++ placeholders rest)

theorem mem_placeholders : ∀ (elements : List Element) (p : Parameter),
    p ∈ placeholders elements ↔
      if p.isFormatter then p.name ∈ formatterNames elements else p.name ∈ valueNames elements
  | [], p => by simp [placeholders, valueNames, formatterNames]
  | .text t :: rest, p => by
    rw [placeholders, valueNames, formatterNames]
    exact mem_placeholders rest p
  | .value name :: rest, ⟨other, kind⟩ => by
    have ih := mem_placeholders rest ⟨other, kind⟩
    rw [placeholders, valueNames, formatterNames, List.mem_cons, List.mem_cons, ih]
    cases kind <;> simp
  | .formatter name body :: rest, ⟨other, kind⟩ => by
    have ihbody := mem_placeholders body ⟨other, kind⟩
    have ih := mem_placeholders rest ⟨other, kind⟩
    rw [placeholders, valueNames, formatterNames, List.mem_cons, List.mem_append, ihbody, ih]
    cases kind <;> simp

theorem mem_signature {elements : List Element} {s : Signature} (h : signature elements = .ok s)
    (p : Parameter) : p ∈ s.parameters ↔ p ∈ placeholders elements := by
  obtain ⟨hdisjoint, rfl⟩ := signature_eq_ok h
  obtain ⟨name, kind⟩ := p
  rw [mem_ofNames, mem_placeholders]
  constructor
  · rintro ⟨hname, hkind⟩
    cases kind with
    | true =>
      rw [if_pos rfl]
      exact List.contains_iff_mem.mp hkind.symm
    | false =>
      rw [if_neg Bool.false_ne_true]
      have hformatter : name ∉ formatterNames elements := by
        rw [← List.contains_iff_mem, ← hkind]
        exact Bool.false_ne_true
      exact (List.mem_append.mp hname).resolve_right hformatter
  · cases kind with
    | true =>
      rw [if_pos rfl]
      intro hname
      exact ⟨List.mem_append_right _ hname, (List.contains_iff_mem.mpr hname).symm⟩
    | false =>
      rw [if_neg Bool.false_ne_true]
      intro hname
      have hformatter : (formatterNames elements).contains name = false := by
        rw [Bool.eq_false_iff]
        exact fun hc => hdisjoint name hname (List.contains_iff_mem.mp hc)
      exact ⟨List.mem_append_left _ hname, hformatter.symm⟩

theorem isName_of_mem_placeholders : ∀ (elements : List Element), WellNamed elements →
    ∀ p ∈ placeholders elements, isName p.name
  | [], _ => by
    rw [placeholders]
    exact List.forall_mem_nil _
  | .text t :: rest, h => by
    rw [placeholders]
    exact isName_of_mem_placeholders rest (List.forall_mem_cons.mp h).2
  | .value name :: rest, h => by
    obtain ⟨hvalue, hrest⟩ := List.forall_mem_cons.mp h
    rw [placeholders]
    exact List.forall_mem_cons.mpr ⟨hvalue.isName_of_value, isName_of_mem_placeholders rest hrest⟩
  | .formatter name body :: rest, h => by
    obtain ⟨hformatter, hrest⟩ := List.forall_mem_cons.mp h
    obtain ⟨hname, hbody⟩ := hformatter.of_formatter
    rw [placeholders]
    exact List.forall_mem_cons.mpr ⟨hname, List.forall_mem_append.mpr
      ⟨isName_of_mem_placeholders body hbody, isName_of_mem_placeholders rest hrest⟩⟩

theorem isName_of_mem_signature {source : Text} {compiled : CompiledTemplate}
    (h : compile source = .ok compiled) : ∀ p ∈ compiled.signature.parameters, isName p.name := by
  obtain ⟨elements, s, hparse, hs, rfl⟩ := compile_eq_ok h
  intro p hp
  exact isName_of_mem_placeholders elements (wellNamed_parse hparse) p ((mem_signature hs p).mp hp)

/-! ### The template literal -/

theorem parameters_literalParts : ∀ (elements : List Element) (before : Text),
    Expression.parametersOfParts (literalParts before elements).1 = placeholders elements
  | [], before => by rw [literalParts, Expression.parametersOfParts, placeholders]
  | .text t :: rest, before => by
    rw [literalParts, placeholders]
    exact parameters_literalParts rest _
  | .value name :: rest, before => by
    rw [literalParts, Expression.parametersOfParts, Expression.parameters, placeholders,
      parameters_literalParts rest, List.singleton_append]
  | .formatter name body :: rest, before => by
    rw [literalParts, Expression.parametersOfParts, Expression.parameters, Expression.parameters,
      placeholders, parameters_literalParts body, parameters_literalParts rest, List.cons_append]

theorem parameters_literalExpression (elements : List Element) :
    (literalExpression elements).parameters = placeholders elements := by
  unfold literalExpression
  rw [Expression.parameters, parameters_literalParts]

/-! ### The list of parts -/

/-- The items of the list of parts as expressions. -/
def partExpressions : List Element → List Expression
  | [] => []
  | .text t :: rest => .string t :: partExpressions rest
  | .value name :: rest => .parameter name :: partExpressions rest
  | .formatter name body :: rest =>
    .application name (.array (partExpressions body)) :: partExpressions rest

theorem parameters_partExpressions : ∀ elements : List Element,
    Expression.parametersOfItems (partExpressions elements) = placeholders elements
  | [] => by rw [partExpressions, Expression.parametersOfItems, placeholders]
  | .text t :: rest => by
    rw [partExpressions, Expression.parametersOfItems, Expression.parameters, placeholders,
      parameters_partExpressions rest, List.nil_append]
  | .value name :: rest => by
    rw [partExpressions, Expression.parametersOfItems, Expression.parameters, placeholders,
      parameters_partExpressions rest, List.singleton_append]
  | .formatter name body :: rest => by
    rw [partExpressions, Expression.parametersOfItems, Expression.parameters, Expression.parameters,
      placeholders, parameters_partExpressions body, parameters_partExpressions rest,
      List.cons_append]

section Items
open Script.State (run)
variable {stack : List Script.Frame}

/-- What ends an item of an array literal. -/
def EndsItem (c : CodePoint) : Prop := c = CodePoint.ofChar ',' ∨ c = CodePoint.ofChar ']'

/-- **A fragment is read as an item** of an array literal. -/
def ReadsItem (f : Fragment) (e : Expression) : Prop :=
  ∀ (stack : List Script.Frame) (before : List Expression) (c : CodePoint) (rest : Text),
    EndsItem c → run ⟨.items before :: stack, .start⟩ (f.render ++ c :: rest) =
      run ⟨.items before :: stack, .complete e⟩ (c :: rest)

/-- Items are read one after the other, up to the bracket that closes the array literal. -/
theorem run_items {items : List Fragment} {expressions : List Expression}
    (h : List.Forall₂ ReadsItem items expressions) (before : List Expression)
    (hne : before = [] ∨ items ≠ []) (rest : Text) :
    run ⟨.items before :: stack, .start⟩
        (Text.join ", " (items.map Fragment.render) ++ CodePoint.ofChar ']' :: rest) =
      run ⟨stack, .complete (.array (before.reverse ++ expressions))⟩ rest := by
  -- What has been read before grows with each item.
  induction h generalizing before with
  | nil =>
    obtain rfl := hne.resolve_right fun hnil => hnil rfl
    rfl
  | @cons f e items expressions hf hrest ih =>
    have hreverse : before.reverse ++ e :: expressions = (e :: before).reverse ++ expressions := by
      rw [List.reverse_cons, List.append_assoc, List.singleton_append]
    rw [hreverse]
    cases hrest with
    | nil =>
      have hclose : run ⟨.items before :: stack, .complete e⟩ (CodePoint.ofChar ']' :: rest) =
          run ⟨stack, .complete (.array (e :: before).reverse)⟩ rest := rfl
      rw [List.map_cons, List.map_nil, Text.join, List.intercalate_singleton,
        hf stack before _ rest (Or.inr rfl), hclose, List.append_nil]
    | @cons next other items expressions hnext hothers =>
      have hcomma : ∀ t : Text, run ⟨.items before :: stack, .complete e⟩
          (CodePoint.ofChar ',' :: CodePoint.space :: t) =
            run ⟨.items (e :: before) :: stack, .start⟩ t := fun t => rfl
      have hjoin : Text.join ", " ((f :: next :: items).map Fragment.render) =
          f.render ++ CodePoint.ofChar ',' :: CodePoint.space ::
            Text.join ", " ((next :: items).map Fragment.render) := by
        unfold Text.join
        rw [List.map_cons, List.map_cons, List.intercalate_cons_cons, List.append_assoc]
        rfl
      rw [hjoin, List.append_assoc, List.cons_append, List.cons_append,
        hf stack before _ _ (Or.inl rfl), hcomma]
      exact ih (e :: before) (Or.inr (List.cons_ne_nil _ _))

theorem readsItem_quoted (t : Text) : ReadsItem (.plain t.quoted) (.string t) :=
  fun _ _ _ _ _ => Script.State.run_quoted t

/-- A name is complete where an item ends. -/
theorem run_naming {name : Text} (h : isName name) (before : List Expression) {c : CodePoint}
    (hc : EndsItem c) (rest : Text) :
    run ⟨.items before :: stack, .naming name.reverse⟩ (c :: rest) =
      run ⟨.items before :: stack, .complete (.parameter name)⟩ (c :: rest) := by
  obtain ⟨letter, others, hreverse⟩ := reverse_eq_cons_of_isName h
  have hname : name = (letter :: others).reverse := List.reverse_eq_iff.mp hreverse
  rw [hname, List.reverse_reverse]
  rcases hc with rfl | rfl <;> rfl

theorem readsItem_value {name : Text} (h : isName name) :
    ReadsItem (.plain (parameterScript name)) (.parameter name) := by
  intro stack before c rest hc
  rw [Fragment.render_plain, run_parameterScript h, run_naming h before hc]

theorem render_list (items : List Fragment) : (Code.concat [Fragment.plain "[",
    Code.join (Fragment.plain ", ") items, Fragment.plain "]"]).render =
      CodePoint.ofChar '[' :: (Text.join ", " (items.map Fragment.render) ++
        [CodePoint.ofChar ']']) := by
  rw [Code.render_concat]
  simp only [List.map_cons, List.map_nil, List.flatten_cons, List.flatten_nil, List.append_nil,
    Fragment.render_plain, Fragment.render_code, Code.render_join]
  rfl

theorem readsItem_formatter {name : Text} (h : isName name) {items : List Fragment}
    {expressions : List Expression} (hitems : List.Forall₂ ReadsItem items expressions) :
    ReadsItem (.code (applicationScript name (Code.concat [Fragment.plain "[",
      Code.join (Fragment.plain ", ") items, Fragment.plain "]"])))
        (.application name (.array expressions)) := by
  intro stack before c rest hc
  obtain ⟨letter, others, hreverse⟩ := reverse_eq_cons_of_isName h
  have hname : name = (letter :: others).reverse := List.reverse_eq_iff.mp hreverse
  have hopen : ∀ t : Text, run ⟨.items before :: stack, .naming (letter :: others)⟩
      (CodePoint.ofChar '(' :: CodePoint.ofChar '[' :: t) =
        run ⟨.items [] :: .argument (letter :: others).reverse :: .items before :: stack, .start⟩ t :=
    fun t => rfl
  have hclose : run ⟨.argument (letter :: others).reverse :: .items before :: stack,
      .complete (.array ([].reverse ++ expressions))⟩ (CodePoint.ofChar ')' :: c :: rest) =
        run ⟨.items before :: stack, .complete (.application (letter :: others).reverse
          (.array expressions))⟩ (c :: rest) := rfl
  rw [Fragment.render_code, render_applicationScript, render_list]
  simp only [List.append_assoc, List.cons_append, List.nil_append]
  rw [run_parameterScript h, hreverse, hopen, run_items hitems [] (Or.inl rfl), hclose, ← hname]

/-- **The items of the list of parts are read back.** -/
theorem readsItem_partItems : ∀ elements : List Element, WellNamed elements →
    List.Forall₂ ReadsItem (partItems elements) (partExpressions elements)
  | [], _ => by
    rw [partItems, partExpressions]
    exact .nil
  | .text t :: rest, h => by
    rw [partItems, partExpressions]
    exact .cons (readsItem_quoted t) (readsItem_partItems rest (List.forall_mem_cons.mp h).2)
  | .value name :: rest, h => by
    obtain ⟨hvalue, hrest⟩ := List.forall_mem_cons.mp h
    rw [partItems, partExpressions]
    exact .cons (readsItem_value hvalue.isName_of_value) (readsItem_partItems rest hrest)
  | .formatter name body :: rest, h => by
    obtain ⟨hformatter, hrest⟩ := List.forall_mem_cons.mp h
    obtain ⟨hname, hbody⟩ := hformatter.of_formatter
    rw [partItems, partExpressions]
    exact .cons (readsItem_formatter hname (readsItem_partItems body hbody))
      (readsItem_partItems rest hrest)

/-- **The list of parts is read back** as an array literal. -/
theorem readExpression_partsScript {elements : List Element} (h : WellNamed elements) :
    Script.readExpression (partsScript elements).render =
      some (.array (partExpressions elements)) := by
  have hopen : ∀ t : Text, run {} (CodePoint.ofChar '[' :: t) = run ⟨[.items []], .start⟩ t :=
    fun t => rfl
  have hitems := @run_items [] _ _ (readsItem_partItems elements h) [] (Or.inl rfl) []
  unfold Script.readExpression partsScript
  rw [render_list, hopen, hitems]
  rfl

end Items

/-! ### Both scripts -/

/-- A script, read back, uses just the parameters of a signature. -/
def Uses (script : Text) (s : Signature) : Prop :=
  ∃ program, Script.read script = some program ∧
    ∀ p, p ∈ program.parameters ↔ p ∈ s.parameters

/-- **Both scripts of a template use the parameters of its signature.** -/
theorem uses_compile {source : Text} {compiled : CompiledTemplate}
    (h : compile source = .ok compiled) : Uses compiled.expression compiled.signature ∧
      ∀ script, compiled.fragment = some script → Uses script compiled.signature := by
  obtain ⟨elements, s, hparse, hs, rfl⟩ := compile_eq_ok h
  have hnames := wellNamed_parse hparse
  constructor
  · show Uses (expressionScript s elements) s
    unfold expressionScript
    split_ifs with hempty
    · refine ⟨_, read_quoted _, fun p => ?_⟩
      rw [List.isEmpty_iff.mp hempty, Program.parameters, Expression.parameters]
    · refine ⟨_, read_function (readExpression_literalScript hnames), fun p => ?_⟩
      rw [Program.parameters, parameters_literalExpression, mem_signature hs]
  · intro script hscript
    have hfragment : fragmentScript s elements = some script := hscript
    unfold fragmentScript at hfragment
    split_ifs at hfragment
    cases hfragment
    refine ⟨_, read_function (readExpression_partsScript hnames), fun p => ?_⟩
    rw [Program.parameters, Expression.parameters, parameters_partExpressions, mem_signature hs]

end Phrasebook.Template
