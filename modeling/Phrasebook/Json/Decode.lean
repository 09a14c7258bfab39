import Phrasebook.Document.Datum
import Phrasebook.Json.Token

/-! # Decoding JSON

A machine over tokens: its state holds the containers that are open and says what may come next, and
each token takes it one step on or is refused with the offset at which something else was
expected. A comma before the end of a container is refused with its own offset. -/

namespace Phrasebook.Json

/-- Why a text is refused. -/
inductive Refusal where
  /-- The text begins with a byte order mark. -/
  | byteOrderMark
  | expectedValue
  | expectedName
  | expectedColon
  | expectedComma
  /-- An array ends after a comma. -/
  | commaBeforeArrayEnd
  /-- An object ends after a comma. -/
  | commaBeforeObjectEnd
  /-- Something follows the value. -/
  | extraData
  | literal (fault : LiteralFault)
deriving DecidableEq

/-- The wording of a refusal. -/
def Refusal.message : Refusal → Text
  | .byteOrderMark => "Unexpected UTF-8 BOM (decode using utf-8-sig)"
  | .expectedValue => "Expecting value"
  | .expectedName => "Expecting property name enclosed in double quotes"
  | .expectedColon => "Expecting ':' delimiter"
  | .expectedComma => "Expecting ',' delimiter"
  | .commaBeforeArrayEnd => "Illegal trailing comma before end of array"
  | .commaBeforeObjectEnd => "Illegal trailing comma before end of object"
  | .extraData => "Extra data"
  | .literal .unterminated => "Unterminated string starting at"
  | .literal .controlCharacter => "Invalid control character at"
  | .literal .invalidEscape => "Invalid \\escape"
  | .literal .invalidUnicodeEscape => "Invalid \\uXXXX escape"

/-- What is wrong with a text. -/
inductive DecodeFault where
  /-- It is not well formed; the reason is seen at an offset. -/
  | malformed (reason : Refusal) (offset : Nat)
  /-- It holds a whole number of more digits than are converted. -/
  | integerTooLong (digits : Nat)
deriving DecidableEq

/-- An open container: an array with its items so far, the last one first, or an object with its
entries so far and the name whose value is read. -/
inductive Frame (α : Type) where
  | array (items : List (Datum α))
  | object (entries : List (DatumKey × Datum α)) (name : Text)

/-- What has been read and what may come next. The stack holds the open containers around, the
innermost first. -/
inductive State (α : Type) where
  /-- A value. -/
  | value (stack : List (Frame α))
  /-- The first item of an array, or its end. -/
  | firstItem (stack : List (Frame α))
  /-- An item after the comma at an offset. -/
  | item (comma : Nat) (items : List (Datum α)) (stack : List (Frame α))
  /-- A comma after an item, or the end of the array. -/
  | afterItem (items : List (Datum α)) (stack : List (Frame α))
  /-- The first name of an object, or its end. -/
  | firstName (stack : List (Frame α))
  /-- A name after the comma at an offset. -/
  | name (comma : Nat) (entries : List (DatumKey × Datum α)) (stack : List (Frame α))
  /-- A colon after a name. -/
  | colon (entries : List (DatumKey × Datum α)) (name : Text) (stack : List (Frame α))
  /-- A comma after a member, or the end of the object. -/
  | afterMember (entries : List (DatumKey × Datum α)) (stack : List (Frame α))
  /-- The end of the text. -/
  | done (value : Datum α)

variable {α : Type}

/-- The state after a complete value. -/
def close (value : Datum α) : List (Frame α) → State α
  | [] => .done value
  | .array items :: stack => .afterItem (value :: items) stack
  | .object entries name :: stack =>
    .afterMember (Datum.putEntry (.text name) value entries) stack

/-- The state after a token where a value must begin. -/
def beginValue (stack : List (Frame α)) (t : PlacedToken) : Except DecodeFault (State α) :=
  match t.token with
  | .beginObject => .ok (.firstName stack)
  | .beginArray => .ok (.firstItem stack)
  | .null => .ok (close .null stack)
  | .bool b => .ok (close (.bool b) stack)
  | .number n => .ok (close (.number n) stack)
  | .text t => .ok (close (.text t) stack)
  | .longInteger digits => .error (.integerTooLong digits)
  | .badLiteral fault offset => .error (.malformed (.literal fault) offset)
  | .endObject | .endArray | .colon | .comma | .junk | .finish =>
    .error (.malformed .expectedValue t.offset)

/-- The state after a token where a name must stand. -/
def beginName (entries : List (DatumKey × Datum α)) (stack : List (Frame α)) (t : PlacedToken) :
    Except DecodeFault (State α) :=
  match t.token with
  | .text name => .ok (.colon entries name stack)
  | .badLiteral fault offset => .error (.malformed (.literal fault) offset)
  | _ => .error (.malformed .expectedName t.offset)

/-- **One token further.** -/
def step (s : State α) (t : PlacedToken) : Except DecodeFault (State α) :=
  match s with
  | .value stack => beginValue stack t
  | .firstItem stack =>
    if t.token = .endArray then .ok (close (.list []) stack)
    else beginValue (.array [] :: stack) t
  | .item comma items stack =>
    if t.token = .endArray then .error (.malformed .commaBeforeArrayEnd comma)
    else beginValue (.array items :: stack) t
  | .afterItem items stack =>
    if t.token = .comma then .ok (.item t.offset items stack)
    else if t.token = .endArray then .ok (close (.list items.reverse) stack)
    else .error (.malformed .expectedComma t.offset)
  | .firstName stack =>
    if t.token = .endObject then .ok (close (.map []) stack) else beginName [] stack t
  | .name comma entries stack =>
    if t.token = .endObject then .error (.malformed .commaBeforeObjectEnd comma)
    else beginName entries stack t
  | .colon entries name stack =>
    if t.token = .colon then .ok (.value (.object entries name :: stack))
    else .error (.malformed .expectedColon t.offset)
  | .afterMember entries stack =>
    if t.token = .comma then .ok (.name t.offset entries stack)
    else if t.token = .endObject then .ok (close (.map entries) stack)
    else .error (.malformed .expectedComma t.offset)
  | .done value =>
    if t.token = .finish then .ok (.done value) else .error (.malformed .extraData t.offset)

/-- The state after all tokens. -/
def run (s : State α) : List PlacedToken → Except DecodeFault (State α)
  | [] => .ok s
  | t :: rest =>
    match step s t with
    | .ok s => run s rest
    | .error fault => .error fault

/-- The byte order mark, which no document may begin with. -/
def byteOrderMark : CodePoint := CodePoint.ofNat 0xFEFF

/-- **The tree of a JSON text.** Of two members with one name the later gives the value and the
earlier the place. -/
def decode (t : Text) : Except DecodeFault (Datum α) :=
  if t.head? = some byteOrderMark then .error (.malformed .byteOrderMark 0)
  else
    match run (.value []) (tokens t) with
    | .ok (.done value) => .ok value
    | .ok _ => .error (.malformed .expectedValue t.length)
    | .error fault => .error fault

end Phrasebook.Json
