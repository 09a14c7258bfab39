import Phrasebook.Text.Numeral

/-! # Positions in a text

A cursor is a place in a text from which a reader looks ahead, moves on, and cuts a piece off. A
position may lie past the end, where nothing is left to read; a negative position counts from the
end. -/

namespace Phrasebook

namespace Text

/-- The place that a position of a slice means: negative ones count from the end, and none lies
outside the text. -/
def bound (t : Text) (position : Int) : Nat :=
  if position < 0 then (t.length + position).toNat else min position.toNat t.length

/-- The code points from one position up to another. -/
def slice (t : Text) (start stop : Int) : Text :=
  (t.drop (t.bound start)).take (t.bound stop - t.bound start)

/-- The code point at a position, counted from the end if it is negative. -/
def at? (t : Text) (position : Int) : Option CodePoint :=
  if position < 0 then
    if 0 ≤ t.length + position then t[(t.length + position).toNat]? else none
  else t[position.toNat]?

end Text

/-- **A position in a text.** -/
structure Cursor where
  source : Text
  position : Int := 0
deriving DecidableEq

namespace Cursor

/-- Whether nothing is left to read. -/
def isAtEnd (c : Cursor) : Bool := (c.source.length : Int) ≤ c.position

/-- A cursor at the end of its text, which was asked for a code point. -/
structure PastEnd where
  position : Int
  length : Nat

/-- What a reader past the end is told. -/
def PastEnd.message (fault : PastEnd) : Text :=
  "No character at offset " ++ Numeral.ofInt fault.position ++ " (input length " ++
    Numeral.ofNat fault.length ++ ")"

/-- The code point so many places ahead. -/
def peek (c : Cursor) (offset : Int := 0) : Option CodePoint := c.source.at? (c.position + offset)

/-- The code point at the cursor. -/
def current (c : Cursor) : Except PastEnd CodePoint :=
  match c.peek with
  | some point => .ok point
  | none => .error ⟨c.position, c.source.length⟩

/-- The cursor moved by so many places, at most to the end. -/
def advance (c : Cursor) (count : Int := 1) : Cursor :=
  ⟨c.source, min c.source.length (c.position + count)⟩

/-- The position after the run of code points of a class, with so many places left to look at. -/
def runEnd (source : Text) (isMember : CodePoint → Bool) : Nat → Int → Int
  | 0, position => position
  | left + 1, position =>
    match source.at? position with
    | some point => if isMember point then runEnd source isMember left (position + 1) else position
    | none => position

/-- The cursor after the run of code points of a class. -/
def takeWhile (c : Cursor) (isMember : CodePoint → Bool) : Cursor :=
  ⟨c.source, runEnd c.source isMember (c.source.length - c.position).toNat c.position⟩

/-- The text from the cursor up to a position. -/
def upTo (c : Cursor) (stop : Int) : Text := c.source.slice c.position stop

/-- Whether the text at the cursor begins with another; past the end nothing does. -/
def startsWith (c : Cursor) (beginning : Text) : Bool :=
  decide (c.position ≤ c.source.length) &&
    Text.startsWith (c.source.drop (c.source.bound c.position)) beginning

/-- The cursor at the next CR or LF, or at the end. -/
def toLineEnd (c : Cursor) : Cursor :=
  let start := c.source.bound c.position
  let line := (c.source.drop start).takeWhile fun d => d ≠ CodePoint.lf && d ≠ CodePoint.cr
  ⟨c.source, start + line.length⟩

/-- The line and the column of the cursor, counted from one. Only a line feed ends a line. -/
def lineColumn (c : Cursor) : Nat × Int :=
  let before := c.source.slice 0 c.position
  let lastLine := before.reverse.takeWhile (· ≠ CodePoint.lf)
  (before.count CodePoint.lf + 1, c.position - (before.length - lastLine.length : Nat) + 1)

end Cursor

end Phrasebook
