import Phrasebook.Diagnostic.Basic
import Phrasebook.Text.Quoted
import Phrasebook.Text.Shown

/-! # Formatted diagnostics

Three forms of a diagnostic: several lines for people, one short line, and one JSON object for
tools. Text from documents stays on its line: the line breaks, tabs and escape characters of a field
are written as escapes. -/

namespace Phrasebook

/-- The forms of a diagnostic. -/
inductive OutputFormat where
  | rust
  | simple
  | json
deriving DecidableEq

namespace OutputFormat

/-- The name of a form, as it is given on the command line. -/
def name : OutputFormat → Text
  | rust => "rust"
  | simple => "simple"
  | json => "json"

/-- Every form. -/
def all : List OutputFormat := [rust, simple, json]

/-- The form of a given name. -/
def ofName? (name : Text) : Option OutputFormat := all.find? (·.name = name)

/-- What is said of a name that no form has. -/
def unknownMessage (name : Text) : Text := Text.shown name ++ " is not a valid OutputFormat"

end OutputFormat

/-- One code point of a field, kept on its line. -/
def Text.oneLinePoint (c : CodePoint) : Text :=
  if c = CodePoint.lf then "\\n"
  else if c = CodePoint.cr then "\\r"
  else if c = CodePoint.tab then "\\t"
  else if c.val = 0x1B then "\\x1b"
  else [c]

/-- A field kept on one line. -/
def Text.oneLine (t : Text) : Text := t.flatMap oneLinePoint

namespace Diagnostic

/-- The control sequence of a terminal with the given parameters. -/
def control (parameters : Text) : Text := CodePoint.ofNat 0x1B :: ("[" ++ parameters ++ "m")

/-- The severity as the header shows it, coloured if asked for. -/
def label (color : Bool) (severity : Severity) : Text :=
  if color then
    control (match severity with
      | .error => "1;31"
      | .warning => "1;33") ++ severity.name ++ control "0"
  else severity.name

/-- The lines for people: a header, the location and the hint. -/
def lines (color : Bool) (d : Diagnostic) : List Text :=
  let header : Text := label color d.severity ++ "[" ++ d.code.name ++ "]: " ++ d.message.oneLine
  let line (mark field : Text) : Text := mark ++ field.oneLine
  let location := (d.location.filter (!·.isEmpty)).map (line "  --> ")
  let hint := (d.hint.filter (!·.isEmpty)).map (line "  = help: ")
  header :: (location.toList ++ hint.toList)

/-- The members of the JSON object, those without a value left out. -/
def members (d : Diagnostic) : List (Text × Text) :=
  let always : List (Text × Text) :=
    [("code", d.code.name), ("message", d.message), ("severity", d.severity.name)]
  always ++ (d.hint.map (("hint" : Text), ·)).toList ++
    (d.location.map (("location" : Text), ·)).toList

/-- **A diagnostic in a form.** -/
def format (form : OutputFormat) (color : Bool) (d : Diagnostic) : Text :=
  match form with
  | .simple => d.code.name ++ ": " ++ d.message.oneLine
  | .json =>
    let member (m : Text × Text) : Text := m.1.literal ++ ": " ++ m.2.literal
    [CodePoint.openBrace] ++ Text.join ", " (d.members.map member) ++ [CodePoint.closeBrace]
  | .rust => Text.join [CodePoint.lf] (d.lines color)

/-- Several diagnostics with a blank line between them. -/
def formatAll (form : OutputFormat) (color : Bool) (ds : List Diagnostic) : Text :=
  Text.join [CodePoint.lf, CodePoint.lf] (ds.map (format form color))

end Diagnostic

/-- What a failure prints: its diagnostic in a form, or its sentence as it is. -/
def Complaint.format (form : OutputFormat) : Complaint → Text
  | .plain message => message
  | .diagnostic d => d.format form false

end Phrasebook
