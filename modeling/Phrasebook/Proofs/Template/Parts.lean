import Phrasebook.Proofs.Template.Signature

/-! # The parts of a template

The second script of a template, which stands just where a formatter occurs in it, gives a list of
parts: texts, values, and what the formatters of parts make of the parts of their bodies. Put together,
the texts of the parts are the text that the first script gives, if each formatter of parts makes
something with the text that the formatter of texts makes (`parts_compile`). -/

namespace Phrasebook

namespace Script

/-! ### The parts that a script gives -/

/-- **A part**: a text, or something else. -/
inductive Part (ν : Type) where
  | text (t : Text)
  | node (n : ν)

/-- What a parameter is given where parts are wanted: a part, or a formatter of parts. -/
inductive PartArgument (ν : Type) where
  | part (p : Part ν)
  | formatter (f : List (Part ν) → Part ν)

/-- The arguments of a call that gives parts, by name. -/
abbrev PartArguments (ν : Type) := Text → Option (PartArgument ν)

variable {ν : Type}

namespace PartArguments

/-- No arguments. -/
def none : PartArguments ν := fun _ => .none

/-- The part given for a name. -/
def part? (a : PartArguments ν) (name : Text) : Option (Part ν) :=
  match a name with
  | some (.part p) => some p
  | _ => .none

/-- The formatter given for a name. -/
def formatter? (a : PartArguments ν) (name : Text) : Option (List (Part ν) → Part ν) :=
  match a name with
  | some (.formatter f) => some f
  | _ => .none

end PartArguments

namespace Expression

mutual

/-- The part that an expression gives. -/
def part (a : PartArguments ν) : Expression → Option (Part ν)
  | .string t => some (.text t)
  | .template _ _ => none
  | .array _ => none
  | .parameter name => a.part? name
  | .application name argument =>
    (a.formatter? name).bind fun f => (parts a argument).map f

/-- **The parts that an expression gives**: those of the items of an array literal. -/
def parts (a : PartArguments ν) : Expression → Option (List (Part ν))
  | .array items => partsOfItems a items
  | _ => none

/-- The parts that some items give. -/
def partsOfItems (a : PartArguments ν) : List Expression → Option (List (Part ν))
  | [] => some []
  | item :: rest => (part a item).bind fun p => (partsOfItems a rest).map (p :: ·)

end

end Expression

/-- The parts that the script of a key gives. A constant does not see the arguments. -/
def Program.parts (a : PartArguments ν) : Program → Option (List (Part ν))
  | .constant e => e.parts .none
  | .function body => body.parts a

/-! ### The text of parts -/

/-- The text of a part, where the text of whatever is no text is known. -/
def Part.flatten (flat : ν → Text) : Part ν → Text
  | .text t => t
  | .node n => flat n

/-- The texts of parts put together. -/
def Part.concat (flat : ν → Text) (parts : List (Part ν)) : Text :=
  parts.flatMap (Part.flatten flat)

@[simp] theorem Part.concat_nil (flat : ν → Text) : Part.concat flat [] = [] := rfl

@[simp] theorem Part.concat_cons (flat : ν → Text) (p : Part ν) (parts : List (Part ν)) :
    Part.concat flat (p :: parts) = p.flatten flat ++ Part.concat flat parts := rfl

/-- **A parameter is given the same twice**: a value a text and a part with this text, a formatter a
function of texts, and one of parts that makes a part with the text made of the texts of the parts. -/
inductive Corresponds (flat : ν → Text) (a : Arguments) (b : PartArguments ν) :
    Parameter → Prop where
  | value {name t : Text} {p : Part ν} (ha : a name = some (.text t))
      (hb : b name = some (.part p)) (h : p.flatten flat = t) :
      Corresponds flat a b ⟨name, false⟩
  | formatter {name : Text} {f : Text → Text} {g : List (Part ν) → Part ν}
      (ha : a name = some (.formatter f)) (hb : b name = some (.formatter g))
      (h : ∀ parts, (g parts).flatten flat = f (Part.concat flat parts)) :
      Corresponds flat a b ⟨name, true⟩

section Corresponds
variable {flat : ν → Text} {a : Arguments} {b : PartArguments ν} {name : Text}

theorem Corresponds.of_value (h : Corresponds flat a b ⟨name, false⟩) :
    ∃ t p, a.text? name = some t ∧ b.part? name = some p ∧ p.flatten flat = t := by
  cases h with
  | value ha hb h =>
    refine ⟨_, _, ?_, ?_, h⟩
    · unfold Arguments.text?
      rw [ha]
    · unfold PartArguments.part?
      rw [hb]

theorem Corresponds.of_formatter (h : Corresponds flat a b ⟨name, true⟩) :
    ∃ f g, a.formatter? name = some f ∧ b.formatter? name = some g ∧
      ∀ parts, (g parts).flatten flat = f (Part.concat flat parts) := by
  cases h with
  | formatter ha hb h =>
    refine ⟨_, _, ?_, ?_, h⟩
    · unfold Arguments.formatter?
      rw [ha]
    · unfold PartArguments.formatter?
      rw [hb]

end Corresponds

end Script

namespace Template

open Script (Arguments PartArguments Part Corresponds Expression)

/-! ### The parts of a template -/

section Parts
variable {ν : Type} {flat : ν → Text} {a : Arguments} {b : PartArguments ν}

/-- The texts of the parts of a template, put together, are its meaning. -/
theorem concat_partExpressions : ∀ elements : List Element,
    (∀ p ∈ placeholders elements, Corresponds flat a b p) →
      ∃ parts, Expression.partsOfItems b (partExpressions elements) = some parts ∧
        meaning a elements = some (Part.concat flat parts)
  | [], _ => by
    refine ⟨[], ?_, ?_⟩
    · rw [partExpressions, Expression.partsOfItems]
    · rw [meaning, Part.concat_nil]
  | .text t :: rest, h => by
    rw [placeholders] at h
    obtain ⟨parts, hparts, hmeaning⟩ := concat_partExpressions rest h
    refine ⟨.text t :: parts, ?_, ?_⟩
    · simp [partExpressions, Expression.partsOfItems, Expression.part, hparts]
    · simp [meaning, hmeaning, Part.flatten]
  | .value name :: rest, h => by
    rw [placeholders] at h
    obtain ⟨hname, hrest⟩ := List.forall_mem_cons.mp h
    obtain ⟨t, p, ht, hp, hflat⟩ := hname.of_value
    obtain ⟨parts, hparts, hmeaning⟩ := concat_partExpressions rest hrest
    refine ⟨p :: parts, ?_, ?_⟩
    · simp [partExpressions, Expression.partsOfItems, Expression.part, hp, hparts]
    · simp [meaning, ht, hmeaning, hflat]
  | .formatter name body :: rest, h => by
    rw [placeholders] at h
    obtain ⟨hname, hothers⟩ := List.forall_mem_cons.mp h
    obtain ⟨hbody, hrest⟩ := List.forall_mem_append.mp hothers
    obtain ⟨f, g, hf, hg, hflat⟩ := hname.of_formatter
    obtain ⟨inner, hinner, hmeaningbody⟩ := concat_partExpressions body hbody
    obtain ⟨parts, hparts, hmeaning⟩ := concat_partExpressions rest hrest
    refine ⟨g inner :: parts, ?_, ?_⟩
    · simp [partExpressions, Expression.partsOfItems, Expression.part, Expression.parts, hg, hinner,
        hparts]
    · simp [meaning, hf, hmeaningbody, hmeaning, hflat]

end Parts

/-! ### Where the second script stands -/

theorem hasFormatters_iff {elements : List Element} {s : Signature}
    (h : signature elements = .ok s) :
    s.hasFormatters = true ↔ ∃ name, OccursAsFormatter name elements := by
  unfold Signature.hasFormatters
  rw [List.any_eq_true]
  constructor
  · rintro ⟨⟨name, kind⟩, hp, rfl⟩
    exact ⟨name, (formatter_mem_signature h).mp hp⟩
  · rintro ⟨name, hname⟩
    exact ⟨⟨name, true⟩, (formatter_mem_signature h).mpr hname, rfl⟩

theorem isSome_fragmentScript (s : Signature) (elements : List Element) :
    (fragmentScript s elements).isSome = s.hasFormatters := by
  unfold fragmentScript
  cases s.hasFormatters <;> rfl

/-- With a formatter the signature has a parameter. -/
theorem isEmpty_eq_false_of_hasFormatters {s : Signature} (h : s.hasFormatters = true) :
    s.isEmpty = false := by
  unfold Signature.hasFormatters at h
  obtain ⟨p, hp, -⟩ := List.any_eq_true.mp h
  unfold Signature.isEmpty
  rw [List.isEmpty_eq_false_iff]
  exact List.ne_nil_of_mem hp

/-! ### The two scripts -/

/-- **The two scripts of a template say the same.** There is a second script just if a formatter
occurs in the template, at any depth; under corresponding arguments for the parameters of the
signature, both scripts, read back, give something, and the texts of the parts put together are the
text. -/
theorem parts_compile {source : Text} {compiled : CompiledTemplate}
    (h : compile source = .ok compiled) :
    (∃ elements, parse source = .ok elements ∧
      (compiled.fragment.isSome = true ↔ ∃ name, OccursAsFormatter name elements)) ∧
    ∀ (ν : Type) (flat : ν → Text) (a : Arguments) (b : PartArguments ν),
      compiled.signature.hasFormatters = true →
        (∀ p ∈ compiled.signature.parameters, Corresponds flat a b p) →
          ∃ script program snippet t parts, compiled.fragment = some script ∧
            Script.read compiled.expression = some program ∧ Script.read script = some snippet ∧
              program.value a = some t ∧ snippet.parts b = some parts ∧
                Part.concat flat parts = t := by
  obtain ⟨elements, s, hparse, hs, rfl⟩ := compile_eq_ok h
  have hnames := wellNamed_parse hparse
  refine ⟨⟨elements, hparse, ?_⟩, fun ν flat a b hformatters hcorresponds => ?_⟩
  · show (fragmentScript s elements).isSome = true ↔ _
    rw [isSome_fragmentScript]
    exact hasFormatters_iff hs
  · have hempty : s.isEmpty = false := isEmpty_eq_false_of_hasFormatters hformatters
    have hexpression : expressionScript s elements =
        functionHead ++ (literalScript elements).render := by
      unfold expressionScript
      rw [hempty, if_neg Bool.false_ne_true]
    have hfragment : fragmentScript s elements =
        some (functionHead ++ (partsScript elements).render) := if_pos hformatters
    have hall : ∀ p ∈ placeholders elements, Corresponds flat a b p :=
      fun p hp => hcorresponds p ((mem_signature hs p).mpr hp)
    obtain ⟨parts, hparts, hmeaning⟩ := concat_partExpressions elements hall
    refine ⟨_, .function (literalExpression elements), .function (.array (partExpressions elements)),
      Part.concat flat parts, parts, hfragment, ?_, ?_, ?_, ?_, rfl⟩
    · show Script.read (expressionScript s elements) = _
      rw [hexpression]
      exact read_function (readExpression_literalScript hnames)
    · exact read_function (readExpression_partsScript hnames)
    · rw [Script.Program.value, value_literalExpression, hmeaning]
    · rw [Script.Program.parts, Expression.parts, hparts]

/-- A formatter inside a formatter, around a value and special code points. -/
theorem parts_compile_nested :
    let source : Text := "\x7bb:\"`$\\\\\x7bb:\x7b a \x7d\x7d\n\x7d"
    let flat : Text → Text := fun t => "<" ++ t ++ ">"
    let a : Arguments := fun name => some (if name = "b" then .formatter flat else .text "`")
    let b : PartArguments Text := fun name =>
      some (if name = "b" then .formatter fun parts => .node (Part.concat flat parts)
        else .part (.text "`"))
    ∃ compiled, compile source = .ok compiled ∧
      (∀ p ∈ compiled.signature.parameters, Corresponds flat a b p) ∧
        ∃ script program snippet t parts, compiled.fragment = some script ∧
          Script.read compiled.expression = some program ∧ Script.read script = some snippet ∧
            program.value a = some t ∧ snippet.parts b = some parts ∧
              Part.concat flat parts = t := by
  intro source flat a b
  let elements : List Element :=
    [.formatter "b" [.text "\"`$\\", .formatter "b" [.value "a"], .text "\n"]]
  have hparse : parse source = .ok elements := rfl
  have hv : valueNames elements = [Text.ofString "a"] := by simp [elements, valueNames]
  have hf : formatterNames elements = [Text.ofString "b", Text.ofString "b"] := by
    simp [elements, formatterNames]
  let s := Signature.ofNames ["a", "b", "b"] ["b", "b"]
  have hs : signature elements = .ok s := by
    unfold signature clashes
    rw [hv, hf]
    rfl
  have hcompile : compile source =
      .ok ⟨s, expressionScript s elements, fragmentScript s elements⟩ := by
    unfold compile
    rw [hparse, Except.bind, compileElements, hs]
    rfl
  have hcorresponds : ∀ p ∈ s.parameters, Corresponds flat a b p := by
    have hlist : s.parameters = [⟨"a", false⟩, ⟨"b", true⟩] := rfl
    intro p hp
    rw [hlist] at hp
    rcases List.mem_cons.mp hp with rfl | hp
    · exact .value rfl rfl rfl
    · obtain rfl := List.mem_singleton.mp hp
      exact .formatter rfl rfl fun parts => rfl
  exact ⟨_, hcompile, hcorresponds, (parts_compile hcompile).2 Text flat a b rfl hcorresponds⟩

end Template

end Phrasebook
