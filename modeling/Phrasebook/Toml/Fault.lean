import Phrasebook.Text.Cursor
import Phrasebook.Text.Shown

/-! # Faults of TOML texts

Why a text is not a TOML document, and where that shows. While a text is read only what is left of
it is at hand, so a fault holds the number of code points left; the line and the column are counted
when it is told. -/

namespace Phrasebook.Toml

/-- A key: the names on the way to a value. -/
abbrev Key := List Text

/-- Why a text is refused. -/
inductive Reason where
  /-- No statement begins here. -/
  | invalidStatement
  /-- Something follows a statement on its line. -/
  | expectedLineEnd
  | expectedEquals
  | invalidKey
  /-- A mark that must come does not come. -/
  | expectedMark (mark : Text)
  /-- A control character in a comment or a literal string. -/
  | invalidCharacter (c : CodePoint)
  /-- A control character in a basic string. -/
  | illegalCharacter (c : CodePoint)
  | unterminatedString
  | unescapedBackslash
  | invalidHex
  /-- An escape names a surrogate or no code point at all. -/
  | notScalar
  /-- A table is opened a second time. -/
  | declaredTwice (key : Key)
  /-- A table that is written in one piece is extended. -/
  | immutableNamespace (key : Key)
  /-- A table that was opened is extended by a dotted key. -/
  | redefinedNamespace (key : Key)
  /-- A value stands where a table must be, or a key has a value already. -/
  | overwrittenValue
  | unclosedTableHeader
  | unclosedArrayHeader
  | unclosedArray
  | unclosedInlineTable
  | duplicateInlineKey (name : Text)
  | invalidDate
  | invalidValue
deriving DecidableEq

/-- The wording of a reason. -/
def Reason.message : Reason → Text
  | invalidStatement => "Invalid statement"
  | expectedLineEnd => "Expected newline or end of document after a statement"
  | expectedEquals => "Expected '=' after a key in a key/value pair"
  | invalidKey => "Invalid initial character for a key part"
  | expectedMark mark => "Expected " ++ Text.shown mark
  | invalidCharacter c => "Found invalid character " ++ Text.shown [c]
  | illegalCharacter c => "Illegal character " ++ Text.shown [c]
  | unterminatedString => "Unterminated string"
  | unescapedBackslash => "Unescaped '\\' in a string"
  | invalidHex => "Invalid hex value"
  | notScalar => "Escaped character is not a Unicode scalar value"
  | declaredTwice key => "Cannot declare " ++ Text.shownTuple key ++ " twice"
  | immutableNamespace key => "Cannot mutate immutable namespace " ++ Text.shownTuple key
  | redefinedNamespace key => "Cannot redefine namespace " ++ Text.shownTuple key
  | overwrittenValue => "Cannot overwrite a value"
  | unclosedTableHeader => "Expected ']' at the end of a table declaration"
  | unclosedArrayHeader => "Expected ']]' at the end of an array declaration"
  | unclosedArray => "Unclosed array"
  | unclosedInlineTable => "Unclosed inline table"
  | duplicateInlineKey name => "Duplicate inline table key " ++ Text.shown name
  | invalidDate => "Invalid date or datetime"
  | invalidValue => "Invalid value"

/-- **What is wrong with a text.** -/
inductive Fault where
  /-- It is not well formed, which shows where so many code points are left. -/
  | malformed (reason : Reason) (left : Nat)
  /-- It holds a whole number of more digits than are converted. -/
  | integerTooLong (digits : Nat)
deriving DecidableEq

/-- What is read from the front of a text, and what is left. -/
abbrev Reading (α : Type) := Except Fault (α × Text)

/-- The refusal of a text in front of what is left of it. -/
def refuse {α : Type} (reason : Reason) (left : Text) : Except Fault α :=
  .error (.malformed reason left.length)

/-- A text in which each CR LF is a line feed. -/
def unifyLineEnds : Text → Text
  | [] => []
  | c :: rest =>
    if c = CodePoint.cr ∧ rest.head? = some CodePoint.lf then unifyLineEnds rest
    else c :: unifyLineEnds rest

/-- The place in a text where so many code points are left. -/
def place (t : Text) (left : Nat) : Text :=
  if left = 0 then "end of document"
  else
    let (line, column) := (Cursor.mk t (t.length - left)).lineColumn
    "line " ++ Numeral.ofNat line ++ ", column " ++ Numeral.ofInt column

/-- What is told of a text that is not well formed. -/
def malformedMessage (t : Text) (reason : Reason) (left : Nat) : Text :=
  reason.message ++ " (at " ++ place (unifyLineEnds t) left ++ ")"

end Phrasebook.Toml
