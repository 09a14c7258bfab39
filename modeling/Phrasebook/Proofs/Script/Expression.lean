import Phrasebook.Text.Basic

/-! # Expressions of generated script

The expressions that the script of a key is made of, and the text that an expression gives when the
parameters are known. A parameter is a text or a formatter; an expression that applies a text, or
shows a formatter as text, has no value. -/

namespace Phrasebook.Script

/-- **An expression.** -/
inductive Expression where
  /-- A string literal. -/
  | string (t : Text)
  /-- A template literal: each interpolation with the text before it, and the text at the end. -/
  | template (parts : List (Text × Expression)) (last : Text)
  /-- An array literal. -/
  | array (items : List Expression)
  /-- A parameter. -/
  | parameter (name : Text)
  /-- A parameter applied to one argument. -/
  | application (name : Text) (argument : Expression)

/-- The script of a key: an expression, or a function of the parameters. -/
inductive Program where
  | constant (e : Expression)
  | function (body : Expression)

/-- What a parameter is given: a text, or a formatter of texts. -/
inductive Argument where
  | text (t : Text)
  | formatter (f : Text → Text)

/-- Whether an argument is a formatter. -/
def Argument.isFormatter : Argument → Bool
  | .text _ => false
  | .formatter _ => true

/-- **The arguments of a call**, by name. -/
abbrev Arguments := Text → Option Argument

namespace Arguments

/-- No arguments. -/
def none : Arguments := fun _ => .none

/-- The text given for a name. -/
def text? (a : Arguments) (name : Text) : Option Text :=
  match a name with
  | some (.text t) => some t
  | _ => .none

/-- The formatter given for a name. -/
def formatter? (a : Arguments) (name : Text) : Option (Text → Text) :=
  match a name with
  | some (.formatter f) => some f
  | _ => .none

end Arguments

namespace Expression

mutual

/-- **The text of an expression.** -/
def value (a : Arguments) : Expression → Option Text
  | .string t => some t
  | .template parts last => (valueOfParts a parts).map (· ++ last)
  | .array _ => none
  | .parameter name => a.text? name
  | .application name argument =>
    (a.formatter? name).bind fun f => (value a argument).map f

/-- The text of the interpolations of a template literal, each with the text before it. -/
def valueOfParts (a : Arguments) : List (Text × Expression) → Option Text
  | [] => some []
  | (before, e) :: rest =>
    (value a e).bind fun t => (valueOfParts a rest).map fun others => before ++ t ++ others

end

end Expression

/-- The text of the script of a key. A constant does not see the arguments. -/
def Program.value (a : Arguments) : Program → Option Text
  | .constant e => e.value .none
  | .function body => body.value a

end Phrasebook.Script
