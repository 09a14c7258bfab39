import Phrasebook.Number.Decimal
import Phrasebook.OrderedMap

/-! # Plain data

The trees that documents and configuration files decode to: scalars, lists and mappings. A mapping
keeps the order of its keys. The parameter is the type of the values that are none of these, which
only callers that hand trees in, and dates in configuration files, bring. -/

namespace Phrasebook

/-- A key of a mapping; in documents always a text. -/
inductive DatumKey where
  | text (t : Text)
  | number (n : Number)
  | bool (b : Bool)
  | null
deriving DecidableEq

/-- **A tree of plain data.** -/
inductive Datum (α : Type) where
  | null
  | bool (b : Bool)
  | number (n : Number)
  | text (t : Text)
  | list (items : List (Datum α))
  | tuple (items : List (Datum α))
  | map (entries : List (DatumKey × Datum α))
  | other (value : α)

/-- The values that are no plain data. -/
inductive Foreign where
  | set
  | bytes (content : List UInt8)
  | complex
  | object
  /-- The natural numbers below a length. -/
  | range (length : Nat)
  | dateTime
  | date
  | time
  /-- Code of a script. -/
  | scriptCode
  /-- A value of a script that stands as it is. -/
  | scriptRaw
  /-- An array of values of a script. -/
  | scriptArray
  /-- An object of values of a script. -/
  | scriptObject
deriving DecidableEq

namespace Foreign

/-- The name of the type of a value. -/
def name : Foreign → Text
  | set => "set"
  | bytes _ => "bytes"
  | complex => "complex"
  | object => "object"
  | range _ => "range"
  | dateTime => "datetime"
  | date => "date"
  | time => "time"
  | scriptCode => "Code"
  | scriptRaw => "Raw"
  | scriptArray => "Array"
  | scriptObject => "Object"

/-- The items of a value: bytes and ranges are sequences of numbers. -/
def items : Foreign → List Number
  | bytes content => content.map fun byte => .int byte.toNat
  | range length => (List.range length).map fun (n : Nat) => .int n
  | _ => []

end Foreign

namespace DatumKey

/-- The text of a key. -/
def toText : DatumKey → Text
  | text t => t
  | number n => n.toText
  | bool b => if b then "True" else "False"
  | null => "None"

/-- The number a key counts as: itself, or one for true and zero for false. -/
def number? : DatumKey → Option Number
  | number n => some n
  | bool b => some (.int (if b then 1 else 0))
  | text _ | null => none

/-- Whether two keys name the same entry: they are equal, or numbers of equal value. -/
def same (a b : DatumKey) : Bool :=
  match a.number?, b.number? with
  | some m, some n => m.same n
  | _, _ => a = b

end DatumKey

namespace Datum

variable {α : Type}

/-- Puts a value under a key of a mapping: in the place of the entry of that key, or at the end. -/
def putEntry (key : DatumKey) (value : Datum α) :
    List (DatumKey × Datum α) → List (DatumKey × Datum α)
  | [] => [(key, value)]
  | (k, v) :: rest => if k.same key then (k, value) :: rest else (k, v) :: putEntry key value rest

/-- The mapping of a list of entries, put one after the other. -/
def ofEntries (entries : List (DatumKey × Datum α)) : Datum α :=
  .map (entries.foldl (fun m e => putEntry e.1 e.2 m) [])

/-- The value under a text in the entries of a mapping. -/
def entry? (name : Text) : List (DatumKey × Datum α) → Option (Datum α)
  | [] => none
  | (k, v) :: rest => if k = .text name then some v else entry? name rest

/-- The name of the type of a scalar or of another value, as messages give it. -/
def typeName : Datum Foreign → Text
  | null => "NoneType"
  | bool _ => "bool"
  | number (.int _) => "int"
  | number (.float _) => "float"
  | text _ => "str"
  | list _ => "list"
  | tuple _ => "tuple"
  | map _ => "dict"
  | other kind => kind.name

/-- The items of a value that is a sequence of values; a text is none. -/
def items : Datum Foreign → List (Datum Foreign)
  | list items | tuple items => items
  | other value => value.items.map number
  | _ => []

end Datum

end Phrasebook
