import Phrasebook.Diagnostic.Problem
import Phrasebook.Document.Datum
import Phrasebook.Script.Literal

/-! # Values in generated script

The values that can be written as script, their script, and the conversion of plain data to such
values. A whole number with too many digits has no script. -/

namespace Phrasebook

/-- **A value that can be written as script.** Raw values stand as they are. -/
inductive Value where
  | null
  | bool (b : Bool)
  | number (n : Number)
  | text (t : Text)
  | raw (f : Fragment)
  | array (items : List Value)
  | object (entries : List (Code.PropertyName × Value))

namespace Value

/-! ### Script -/

/-- The script of a number. -/
def numberScript : Number → Except Crash Text
  | .int n => Numeral.write n
  | .float .nan => .ok "NaN"
  | .float (.infinite negative) => .ok (if negative then "-Infinity" else "Infinity")
  | .float x => .ok x.toText

/-- An array literal of the script of its items, one per line. -/
def arrayScript (items : List Fragment) : Code :=
  match items with
  | [] => ⟨["[]"]⟩
  | _ =>
    Code.concat [Fragment.plain (CodePoint.ofChar '[' :: Code.firstBreak),
      Code.join (Fragment.plain Code.entryBreak) (items.map fun f => Fragment.code (Code.indent f)),
      Fragment.plain (CodePoint.lf :: "]")]

mutual

/-- **The script of a value.** Overrides of property names hold at every depth. -/
def toCode (overrides : Code.NameOverrides) : Value → Except Crash Code
  | .null => .ok ⟨["null"]⟩
  | .bool b => .ok ⟨[if b then "true" else "false"]⟩
  | .number n => (numberScript n).map fun t => ⟨[t]⟩
  | .text t => .ok ⟨[t.quoted]⟩
  | .raw f => .ok ⟨f.pieces⟩
  | .array items => (stringifyItems overrides items).map arrayScript
  | .object entries =>
    (stringifyEntries overrides entries).map fun properties => Code.object properties overrides

/-- The script of the items of an array. -/
def stringifyItems (overrides : Code.NameOverrides) : List Value → Except Crash (List Fragment)
  | [] => .ok []
  | item :: rest => do
    let code ← toCode overrides item
    return .code code :: (← stringifyItems overrides rest)

/-- The script of the values of an object. -/
def stringifyEntries (overrides : Code.NameOverrides) :
    List (Code.PropertyName × Value) → Except Crash (List (Code.PropertyName × Fragment))
  | [] => .ok []
  | (name, value) :: rest => do
    let code ← toCode overrides value
    return (name, .code code) :: (← stringifyEntries overrides rest)

end

/-! ### Conversion -/

/-- What is no plain data, or has no text. -/
inductive Unconvertible where
  /-- A value of a type that cannot be written as script. -/
  | type (name : Text)
  /-- A key of a mapping that cannot be written. -/
  | key (c : Crash)
deriving DecidableEq

/-- What is said of data that cannot be written as script. -/
def Unconvertible.message : Unconvertible → Text
  | type name => "Cannot convert " ++ name ++ " to a code value"
  | key c => c.message

/-- The name that a key of a mapping becomes. -/
def nameOfKey : DatumKey → Except Unconvertible Text
  | .number (.int n) => (Numeral.write n).mapError .key
  | key => .ok key.toText

mutual

/-- **The value of plain data**: lists and tuples become arrays, mappings objects whose keys are
texts. The function converts what is no plain data. -/
def ofDatum {α : Type} (convert : α → Except Unconvertible Value) :
    Datum α → Except Unconvertible Value
  | .null => .ok .null
  | .bool b => .ok (.bool b)
  | .number n => .ok (.number n)
  | .text t => .ok (.text t)
  | .list items => (ofItems convert items).map .array
  | .tuple items => (ofItems convert items).map .array
  | .map entries => (ofEntries convert entries).map .object
  | .other value => convert value

/-- The values of the items of a list. -/
def ofItems {α : Type} (convert : α → Except Unconvertible Value) :
    List (Datum α) → Except Unconvertible (List Value)
  | [] => .ok []
  | item :: rest => do
    let value ← ofDatum convert item
    return value :: (← ofItems convert rest)

/-- The values of the entries of a mapping. -/
def ofEntries {α : Type} (convert : α → Except Unconvertible Value) :
    List (DatumKey × Datum α) → Except Unconvertible (List (Code.PropertyName × Value))
  | [] => .ok []
  | (key, datum) :: rest => do
    let name ← nameOfKey key
    let value ← ofDatum convert datum
    return (.text name, value) :: (← ofEntries convert rest)

end

/-- A value that is no plain data. -/
inductive Embedded where
  | fragment (f : Fragment)
  | value (v : Value)
  | foreign (value : Foreign)

/-- The value of what is no plain data: code stands as it is, a plain text is a text, and values of
other types cannot be converted. -/
def ofEmbedded : Embedded → Except Unconvertible Value
  | .fragment (.plain t) => .ok (.text t)
  | .fragment (.code c) => .ok (.raw (.code c))
  | .value v => .ok v
  | .foreign value => .error (.type value.name)

/-- The tree that a value which is no plain data stands for in a document: a plain text is a text,
and code and the values of a script that hold others are no plain data there either. -/
def Embedded.toDatum : Embedded → Datum Foreign
  | .fragment (.plain t) | .value (.text t) => .text t
  | .fragment (.code _) => .other .scriptCode
  | .value .null => .null
  | .value (.bool b) => .bool b
  | .value (.number n) => .number n
  | .value (.raw _) => .other .scriptRaw
  | .value (.array _) => .other .scriptArray
  | .value (.object _) => .other .scriptObject
  | .foreign datum => .other datum

end Value

end Phrasebook
