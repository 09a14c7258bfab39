import Phrasebook.Number.Decimal
import Phrasebook.Text.Digit

/-! # Numbers as they are typed

A number given by hand may have blanks around it and underscores between its digits, and infinity
and NaN may be given by name, in letters of either case. The digits and blanks may be those of any
script. -/

namespace Phrasebook.Decimal

/-- A blank of ASCII. -/
def isBlank (c : CodePoint) : Bool := c.within 0x09 0x0D || c.val = 0x20

/-- A blank beyond ASCII. -/
def isWideBlank (c : CodePoint) : Bool :=
  c.val = 0x85 || c.val = 0xA0 || c.val = 0x1680 || c.within 0x2000 0x200A ||
    c.within 0x2028 0x2029 || c.val = 0x202F || c.val = 0x205F || c.val = 0x3000

/-- A digit or a blank of any script brought to ASCII; anything else stays as it is. -/
def narrow (c : CodePoint) : CodePoint :=
  if isWideBlank c then CodePoint.space
  else
    match c.decimalValue? with
    | some value => CodePoint.ofNat (0x30 + value)
    | none => c

/-- The text without the blanks around it. -/
def trim (t : Text) : Text := ((t.dropWhile isBlank).reverse.dropWhile isBlank).reverse

/-- The text without its underscores, each of which must stand between two digits; the flag says
that a digit stands just before. -/
def withoutUnderscores? (afterDigit : Bool) : Text → Option Text
  | [] => some []
  | c :: rest =>
    if c = CodePoint.ofChar '_' then
      if afterDigit && rest.head?.any (·.isDigit) then withoutUnderscores? false rest else none
    else (withoutUnderscores? c.isDigit rest).map (c :: ·)

/-- An ASCII letter in lower case. -/
def lower (c : CodePoint) : CodePoint :=
  if c.within 0x41 0x5A then CodePoint.ofNat (c.val + 0x20) else c

/-- Infinity or NaN by name, with an optional sign. -/
def named? (t : Text) : Option Binary64 :=
  let (negative, name) := takeSign (t.map lower)
  if name = Text.ofString "inf" ∨ name = Text.ofString "infinity" then some (.infinite negative)
  else if name = Text.ofString "nan" then some .nan
  else none

/-- **The number of a typed text.** -/
def typed? (t : Text) : Option Binary64 :=
  let trimmed := trim (t.map narrow)
  (named? trimmed).or ((withoutUnderscores? false trimmed).bind number?)

end Phrasebook.Decimal
