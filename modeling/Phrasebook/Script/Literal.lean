import Phrasebook.OrderedMap
import Phrasebook.Script.Fragment
import Phrasebook.Text.Quoted

/-! # Literals of generated script

Object literals with one property per line, and template literals whose text parts are escaped. -/

namespace Phrasebook.Code

/-! ### Object literals -/

/-- The name of a property: a text, or script that stands as it is. -/
inductive PropertyName where
  | text (t : Text)
  | raw (f : Fragment)
deriving DecidableEq

/-- Script that stands for the names of some properties. -/
abbrev NameOverrides := OrderedMap Text Fragment

/-- The script of a property name: a text is replaced if there is an override for it, and quoted if
not. -/
def propertyName (overrides : NameOverrides) : PropertyName → Fragment
  | .text t => (overrides.get? t).getD (Fragment.plain t.quoted)
  | .raw f => f

/-- A property, its value indented by one level. -/
def property (overrides : NameOverrides) (name : PropertyName) (value : Fragment) : Code :=
  concat [propertyName overrides name, Fragment.plain ": ", indent value]

/-- What stands between the opening bracket and the first entry of a literal. -/
def firstBreak : Text := CodePoint.lf :: indentUnit

/-- What stands between two entries of a literal. -/
def entryBreak : Text := CodePoint.ofChar ',' :: firstBreak

/-- **An object literal**, one property per line. -/
def object (properties : List (PropertyName × Fragment)) (overrides : NameOverrides := []) : Code :=
  match properties with
  | [] => ⟨[[CodePoint.openBrace, CodePoint.closeBrace]]⟩
  | _ =>
    concat [Fragment.plain (CodePoint.openBrace :: firstBreak),
      join (Fragment.plain entryBreak)
        (properties.map fun p => Fragment.code (property overrides p.1 p.2)),
      Fragment.plain [CodePoint.lf, CodePoint.closeBrace]]

/-! ### Template literals -/

/-- One code point of the text of a template literal. -/
def templatePoint (c : CodePoint) : Text :=
  if c = CodePoint.lf then "\\n"
  else if c = CodePoint.cr then "\\r"
  else if c = CodePoint.tab then "\\t"
  else if c = CodePoint.backslash then "\\\\"
  else if c = CodePoint.backtick then [CodePoint.backslash, CodePoint.backtick]
  else if c = CodePoint.ofChar '$' then "\\$"
  else [c]

/-- The text of a template literal with its escapes. -/
def templateText (t : Text) : Text := Text.spellSurrogates (t.flatMap templatePoint)

/-- What opens an interpolation. -/
def interpolationStart : Text := [CodePoint.ofChar '$', CodePoint.openBrace, CodePoint.space]

/-- What closes an interpolation. -/
def interpolationEnd : Text := [CodePoint.space, CodePoint.closeBrace]

/-- A template literal: its first text and the interpolations, each with the text after it. -/
def template (first : Text) (rest : List (Fragment × Text)) : Code :=
  concat ([Fragment.plain [CodePoint.backtick], Fragment.plain (templateText first)] ++
    rest.flatMap (fun part => [Fragment.plain interpolationStart, part.1,
      Fragment.plain interpolationEnd, Fragment.plain (templateText part.2)]) ++
    [Fragment.plain [CodePoint.backtick]])

/-- Texts and interpolations whose numbers do not fit. -/
structure PartsMismatch where
  parts : Nat
  interpolations : Nat
deriving DecidableEq

/-- What is said of texts and interpolations that do not fit. -/
def PartsMismatch.message (m : PartsMismatch) : Text :=
  "Template literal needs exactly one more part than interpolations, got " ++
    Numeral.ofNat m.parts ++ " parts and " ++ Numeral.ofNat m.interpolations ++ " interpolations"

/-- **A template literal** of texts with an interpolation between consecutive ones. -/
def templateLiteral (parts : List Text) (interpolations : List Fragment) :
    Except PartsMismatch Code :=
  match parts with
  | [] => .error ⟨0, interpolations.length⟩
  | first :: rest =>
    if rest.length = interpolations.length then .ok (template first (interpolations.zip rest))
    else .error ⟨parts.length, interpolations.length⟩

end Phrasebook.Code
