import Phrasebook.Document.Datum
import Phrasebook.Toml.Fault

/-! # Tables under construction

A TOML text fills a tree of tables step by step. Beside the tree it is kept which tables were opened
by a header or by a dotted key, and which values were written in one piece: neither may be opened or
extended again. -/

namespace Phrasebook.Toml

/-- The entries of a table. -/
abbrev Entries := List (DatumKey × Datum Foreign)

/-- **A table changed at a key.** Tables that are missing on the way are created; with
`throughArrays` an array stands for its last item. Any other value on the way is refused. -/
def modifyAt (throughArrays : Bool) (change : Entries → Except Reason Entries) :
    Key → Entries → Except Reason Entries
  | [], entries => change entries
  | name :: rest, entries =>
    let put (value : Datum Foreign) : Entries := Datum.putEntry (.text name) value entries
    match Datum.entry? name entries with
    | none => (modifyAt throughArrays change rest []).map fun inner => put (.map inner)
    | some (.map inner) =>
      (modifyAt throughArrays change rest inner).map fun inner => put (.map inner)
    | some (.list items) =>
      match throughArrays, items.getLast? with
      | true, some (.map inner) =>
        (modifyAt throughArrays change rest inner).map fun inner =>
          put (.list (items.dropLast ++ [.map inner]))
      | _, _ => .error .overwrittenValue
    | some _ => .error .overwrittenValue

/-- A key without its last name, and the last name. -/
def splitKey (key : Key) : Key × Text := (key.dropLast, key.getLast?.getD [])

/-- Gives a key its value; a key that has one is refused for the given reason. -/
def putNew (throughArrays : Bool) (taken : Reason) (key : Key) (value : Datum Foreign)
    (entries : Entries) : Except Reason Entries :=
  let (parent, name) := splitKey key
  let change (entries : Entries) : Except Reason Entries :=
    match Datum.entry? name entries with
    | none => .ok (Datum.putEntry (.text name) value entries)
    | some _ => .error taken
  modifyAt throughArrays change parent entries

/-- Makes sure that there is a table at a key. -/
def openTable (key : Key) (entries : Entries) : Except Reason Entries :=
  modifyAt true .ok key entries

/-- Appends an empty table to the array at a key. -/
def appendTable (key : Key) (entries : Entries) : Except Reason Entries :=
  let (parent, name) := splitKey key
  let change (entries : Entries) : Except Reason Entries :=
    match Datum.entry? name entries with
    | none => .ok (Datum.putEntry (.text name) (.list [.map []]) entries)
    | some (.list items) =>
      .ok (Datum.putEntry (.text name) (.list (items ++ [.map []])) entries)
    | some _ => .error .overwrittenValue
  modifyAt true change parent entries

/-- **What may not be opened or extended again.** -/
structure Marks where
  /-- The tables that were opened by a header or by a dotted key. -/
  declared : List Key := []
  /-- The values that were written in one piece. -/
  frozen : List Key := []

namespace Marks

/-- Whether the table at a key was opened. -/
def isDeclared (m : Marks) (key : Key) : Bool := m.declared.contains key

/-- Whether a key leads to or into a value that was written in one piece. -/
def isFrozen (m : Marks) (key : Key) : Bool := m.frozen.any (·.isPrefixOf key)

/-- Marks a table as opened. -/
def declare (m : Marks) (key : Key) : Marks := { m with declared := key :: m.declared }

/-- Marks a value as written in one piece, if it holds others. -/
def freeze (m : Marks) (key : Key) (value : Datum Foreign) : Marks :=
  match value with
  | .map _ | .list _ => { m with frozen := key :: m.frozen }
  | _ => m

/-- The marks without those at or below a key. -/
def release (m : Marks) (key : Key) : Marks :=
  ⟨m.declared.filter (!key.isPrefixOf ·), m.frozen.filter (!key.isPrefixOf ·)⟩

end Marks

end Phrasebook.Toml
