import Phrasebook.Document.Basic
import Phrasebook.Document.NestingGuard
import Phrasebook.Document.KeyPath

/-! # Walking a document

A walk visits the values of a tree depth first and in order. It lists the texts with their paths and
the values that are skipped, and it ends where the tree nests deeper than the guard allows. The
items of a list are visited under their positions as names, so that a list and a mapping with such
keys are walked alike. -/

namespace Phrasebook

/-- **A value met on a walk.** -/
inductive Visit where
  /-- A text. -/
  | text (path : KeyPath) (value : Text)
  /-- A value that is neither text nor container. -/
  | skipped (path : KeyPath) (typeName : Text)
  /-- A container that the guard refuses to open. -/
  | refused (problem : Problem)
deriving DecidableEq

namespace Datum

/-- Whether a tree may be the root of a document. -/
def isContainer {α : Type} : Datum α → Bool
  | .map _ | .list _ => true
  | _ => false

mutual

/-- **The visits of a walk** through a value at a path. -/
def visits (guard : NestingGuard) (path : KeyPath) : Datum Foreign → List Visit
  | .text t => [.text path t]
  | .map entries =>
    match guard.enter path.key with
    | .error problem => [.refused problem]
    | .ok inside => visitsOfEntries inside path entries
  | .list items =>
    match guard.enter path.key with
    | .error problem => [.refused problem]
    | .ok inside => visitsOfItems inside path 0 items
  | .null => []
  | .bool b => [.skipped path (typeName (.bool b))]
  | .number n => [.skipped path (typeName (.number n))]
  | .tuple items => [.skipped path (typeName (.tuple items))]
  | .other value => [.skipped path (typeName (.other value))]

/-- The visits of the items of a list from a position on. -/
def visitsOfItems (guard : NestingGuard) (path : KeyPath) (position : Nat) :
    List (Datum Foreign) → List Visit
  | [] => []
  | item :: rest =>
    visits guard (path.child (.name (Numeral.ofNat position))) item ++
      visitsOfItems guard path (position + 1) rest

/-- The visits of the entries of a mapping. -/
def visitsOfEntries (guard : NestingGuard) (path : KeyPath) :
    List (DatumKey × Datum Foreign) → List Visit
  | [] => []
  | (key, value) :: rest =>
    visits guard (path.child (.name key.toText)) value ++ visitsOfEntries guard path rest

end

end Datum

end Phrasebook
