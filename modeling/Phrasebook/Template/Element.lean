import Phrasebook.Text.Shown

/-! # Templates

A template is text with placeholders: `{name}` stands for a value, `{name:body}` for a formatter
applied to the inner template `body`. A backslash before a brace or a backslash makes it literal.

Reading is a machine over code points. Its state holds the formatters whose bodies are open and the
elements read so far; each code point takes it one step on, or is the first that no template with
this beginning goes on with. -/

namespace Phrasebook.Template

/-- **A part of a template.** -/
inductive Element where
  /-- Literal text. -/
  | text (t : Text)
  /-- The value of a parameter. -/
  | value (name : Text)
  /-- A formatter applied to an inner template. -/
  | formatter (name : Text) (body : List Element)

/-- Whether a code point may begin a name. -/
def isNameStart (c : CodePoint) : Bool :=
  c.isLetter || c = CodePoint.ofChar '_' || c = CodePoint.ofChar '$'

/-- Whether a code point may go on with a name. -/
def isNamePart (c : CodePoint) : Bool := isNameStart c || c.isDigit

/-- Whether a text is a name. -/
def isName (t : Text) : Bool :=
  match t with
  | [] => false
  | c :: rest => isNameStart c && rest.all isNamePart

/-- Whether a backslash makes a code point literal. -/
def isEscapable (c : CodePoint) : Bool :=
  c = CodePoint.openBrace || c = CodePoint.closeBrace || c = CodePoint.backslash

/-- Why a text is no template, or a template has no signature. -/
inductive Reason where
  /-- A closing brace closes nothing. -/
  | unmatchedBrace
  /-- A placeholder begins without a name. -/
  | expectedName
  /-- A placeholder is not closed. -/
  | unclosedBrace
  /-- Something follows the name of a placeholder. -/
  | unexpected (c : CodePoint)
  /-- A name is that of a value and of a formatter. -/
  | bothKinds (name : Text)
deriving DecidableEq

/-- The wording of a reason. -/
def Reason.message : Reason → Text
  | .unmatchedBrace => "Unmatched '\x7d'"
  | .expectedName => "Expected parameter name"
  | .unclosedBrace => "Unclosed '\x7b'"
  | .unexpected c => "Unexpected character " ++ Text.shown [c] ++ " in placeholder"
  | .bothKinds name => "Parameter '" ++ name ++ "' used both as value and formatter"

/-- What is wrong with a template, and where. -/
structure SyntaxFault where
  reason : Reason
  position : Nat
deriving DecidableEq

/-! ### The reader -/

/-- What the reader is in the middle of. -/
inductive Mode where
  /-- Text. -/
  | text
  /-- Text, after a backslash. -/
  | escape
  /-- A placeholder, before its name. -/
  | opened
  /-- The name of a placeholder, its last letter first. -/
  | naming (letters : Text)
  /-- A placeholder, after its name and a space. -/
  | named (name : Text)

/-- A formatter whose body is open: its name, and the elements before it, the last one first. -/
structure Frame where
  name : Text
  before : List Element

/-- Where the reader stands. -/
structure State where
  /-- The open formatters, the innermost first. -/
  stack : List Frame := []
  /-- The elements of the innermost open template, the last one first. -/
  elements : List Element := []
  /-- Text that is not yet an element, its last code point first. -/
  pending : Text := []
  mode : Mode := .text

namespace State

/-- The elements so far, with the pending text as the last one. -/
def flushed (s : State) : List Element :=
  match s.pending with
  | [] => s.elements
  | _ => .text s.pending.reverse :: s.elements

/-- The state after a placeholder. -/
def placed (s : State) (element : Element) : State :=
  { s with elements := element :: s.elements, mode := .text }

/-- The state after the colon that opens the body of a formatter. -/
def bodyOpened (s : State) (name : Text) : State :=
  { stack := ⟨name, s.elements⟩ :: s.stack }

/-- One code point further in text. -/
def textStep (s : State) (c : CodePoint) : Except Reason State :=
  if c = CodePoint.backslash then .ok { s with mode := .escape }
  else if c = CodePoint.openBrace then
    .ok { s with elements := s.flushed, pending := [], mode := .opened }
  else if c = CodePoint.closeBrace then
    match s.stack with
    | [] => .error .unmatchedBrace
    | frame :: stack =>
      .ok { stack, elements := .formatter frame.name s.flushed.reverse :: frame.before }
  else .ok { s with pending := c :: s.pending }

/-- One code point further after the name of a placeholder. -/
def nameEndStep (s : State) (name : Text) (c : CodePoint) : Except Reason State :=
  if c = CodePoint.space then .ok { s with mode := .named name }
  else if c = CodePoint.closeBrace then .ok (s.placed (.value name))
  else if c = CodePoint.ofChar ':' then .ok (s.bodyOpened name)
  else .error (.unexpected c)

/-- **One code point further.** -/
def step (s : State) (c : CodePoint) : Except Reason State :=
  match s.mode with
  | .text => s.textStep c
  | .escape =>
    if isEscapable c then .ok { s with pending := c :: s.pending, mode := .text }
    else .ok { s with pending := c :: CodePoint.backslash :: s.pending, mode := .text }
  | .opened =>
    if c = CodePoint.space then .ok s
    else if isNameStart c then .ok { s with mode := .naming [c] }
    else .error .expectedName
  | .naming letters =>
    if isNamePart c then .ok { s with mode := .naming (c :: letters) }
    else s.nameEndStep letters.reverse c
  | .named name => s.nameEndStep name c

/-- The elements at the end of the text. -/
def finish (s : State) : Except Reason (List Element) :=
  match s.mode with
  | .opened => .error .expectedName
  | .naming _ | .named _ => .error .unclosedBrace
  | .text => if s.stack.isEmpty then .ok s.flushed.reverse else .error .unclosedBrace
  | .escape =>
    if s.stack.isEmpty then
      .ok (flushed { s with pending := CodePoint.backslash :: s.pending }).reverse
    else .error .unclosedBrace

/-- The elements of the rest of a text that begins at a position. -/
def run (s : State) (position : Nat) : Text → Except SyntaxFault (List Element)
  | [] => s.finish.mapError (⟨·, position⟩)
  | c :: rest =>
    match s.step c with
    | .ok s => run s (position + 1) rest
    | .error reason => .error ⟨reason, position⟩

end State

/-- **The elements of a template.** -/
def parse (source : Text) : Except SyntaxFault (List Element) := State.run {} 0 source

end Phrasebook.Template
