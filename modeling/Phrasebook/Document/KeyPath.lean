import Phrasebook.Diagnostic.Problem
import Phrasebook.Document.Datum
import Phrasebook.Text.Quoted

/-! # Paths into a document

A path leads from the root of a tree to one of its values by property names and list indices. Its
segments joined by points are the key under which a text is known in all locales. The paths of texts
have no indices, so that their keys and accessors are at hand (`KeyPath.key`, `KeyPath.accessor`);
those of other paths are written, which fails if an index has too many digits
(`KeyPath.writeKey`, `KeyPath.writeAccessor`). -/

namespace Phrasebook

/-- One step of a path: a property name or a list index. -/
inductive Segment where
  | name (t : Text)
  | index (n : Int)
deriving DecidableEq

namespace Segment

/-- The text of a step, with an index spelled out whatever its size. -/
def toText : Segment → Text
  | name t => t
  | index n => Numeral.ofInt n

/-- The text of a step as it is written. -/
def write : Segment → Except Crash Text
  | name t => .ok t
  | index n => Numeral.write n

/-- The step as a subscript in script text, with an index spelled out whatever its size. -/
def subscript : Segment → Text
  | name t => "[" ++ t.literal ++ "]"
  | index n => "[" ++ Numeral.ofInt n ++ "]"

/-- The step as a subscript that is written. -/
def writeSubscript : Segment → Except Crash Text
  | name t => .ok ("[" ++ t.literal ++ "]")
  | index n => (Numeral.write n).map fun numeral => "[" ++ numeral ++ "]"

end Segment

/-- **A path into a tree**, from the root on. -/
structure KeyPath where
  segments : List Segment := []
deriving DecidableEq

namespace KeyPath

/-- The path that leads nowhere but to the root. -/
def root : KeyPath := ⟨[]⟩

/-- **The key of a path**: its segments joined by points. -/
def key (p : KeyPath) : Text := Text.join "." (p.segments.map Segment.toText)

/-- The key of a path as it is written. -/
def writeKey (p : KeyPath) : Except Crash Text :=
  (p.segments.mapM Segment.write).map (Text.join ".")

/-- **The accessor of a path**: the subscripts that lead from the root object to the value. -/
def accessor (p : KeyPath) : Text := p.segments.flatMap Segment.subscript

/-- The accessor of a path as it is written. -/
def writeAccessor (p : KeyPath) : Except Crash Text :=
  (p.segments.mapM Segment.writeSubscript).map List.flatten

/-- Whether the path is the root. -/
def isRoot (p : KeyPath) : Bool := p.segments.isEmpty

/-- The number of steps. -/
def depth (p : KeyPath) : Nat := p.segments.length

/-- The path with one step more. -/
def child (p : KeyPath) (segment : Segment) : KeyPath := ⟨p.segments ++ [segment]⟩

/-- The path without its last step; the root stays the root. -/
def parent (p : KeyPath) : KeyPath := ⟨p.segments.dropLast⟩

/-- The proper beginnings of a path but the root, the shortest first. -/
def ancestors (p : KeyPath) : List KeyPath :=
  (List.range (p.depth - 1)).map fun n => ⟨p.segments.take (n + 1)⟩

/-- What can be wrong with a question to a path. -/
inductive Fault where
  /-- The root was asked for its last step. -/
  | rootHasNoName
  /-- A tree has no value at the path of this key. -/
  | notFound (key : Text)
  /-- A tree has no value at the path, and the key of the path cannot be written. -/
  | keyUnwritable (c : Crash)
deriving DecidableEq

/-- The wording of a fault. -/
def Fault.message : Fault → Text
  | .rootHasNoName => "Root path has no name"
  | .notFound key => key
  | .keyUnwritable c => c.message

/-- The last step. -/
def name (p : KeyPath) : Except Fault Segment :=
  match p.segments.getLast? with
  | some segment => .ok segment
  | none => .error .rootHasNoName

/-- The value one step below another: a property of a mapping or an item of a sequence. -/
def step? (segment : Segment) (value : Datum Foreign) : Option (Datum Foreign) :=
  match segment, value with
  | .name t, .map entries => Datum.entry? t entries
  | .name _, _ => none
  | .index n, value => if 0 ≤ n then value.items[n.toNat]? else none

/-- The value that the steps lead to. -/
def follow? : List Segment → Datum Foreign → Option (Datum Foreign)
  | [], value => some value
  | segment :: rest, value => (step? segment value).bind (follow? rest)

/-- The fault of a path that leads nowhere in a tree. -/
def notFound (p : KeyPath) : Fault :=
  match p.writeKey with
  | .ok key => .notFound key
  | .error c => .keyUnwritable c

/-- **The value of a tree at a path**, or the default if there is one given. -/
def lookup (p : KeyPath) (tree : Datum Foreign) (default : Option (Datum Foreign) := none) :
    Except Fault (Datum Foreign) :=
  match follow? p.segments tree, default with
  | some value, _ => .ok value
  | none, some value => .ok value
  | none, none => .error p.notFound

end KeyPath

end Phrasebook
