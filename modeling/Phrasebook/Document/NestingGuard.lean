import Phrasebook.Diagnostic.Notice

/-! # Limits on nesting

A guard counts how many containers are open and refuses to open one more than its limit. The limit
itself is kept so low that the frames of a walk fit the stack. -/

namespace Phrasebook

/-- **A count of open levels with a limit.** -/
structure NestingGuard where
  limit : Int
  depth : Int := 0
deriving DecidableEq

namespace NestingGuard

/-- The number of nested frames the stack has room for. -/
def frames : Int := 1000

/-- The number of frames that are left to others. -/
def headroom : Int := 50

/-- The limit on the nesting of documents that is used where none is asked for. -/
def usualLimit : Int := 100

/-- The requested limit lowered so that it fits the stack together with some headroom. -/
def fit (requested : Int) (headroom : Int := NestingGuard.headroom) : Int :=
  min requested (frames - headroom)

/-- The notice that a requested limit was lowered, if it was. -/
def fitNotices (requested : Int) (headroom : Int := NestingGuard.headroom) : List Notice :=
  if requested ≤ frames - headroom then []
  else [.depthLowered requested (frames - headroom) frames]

/-- A guard with nothing open. -/
def ofLimit (requested : Int) : NestingGuard := { limit := fit requested }

/-- Opens a level at a location, unless as many are open as the limit allows. -/
def enter (g : NestingGuard) (location : Text) : Except Problem NestingGuard :=
  if g.limit ≤ g.depth then .error (.depthExceeded g.limit location)
  else .ok { g with depth := g.depth + 1 }

/-- Closes the innermost level. -/
def leave (g : NestingGuard) : NestingGuard := { g with depth := g.depth - 1 }

end NestingGuard

end Phrasebook
