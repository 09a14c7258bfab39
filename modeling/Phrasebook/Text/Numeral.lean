import Phrasebook.Text.Basic

/-! # Numerals

Whole numbers in decimal, fixed-width hexadecimal, and the values of digits. -/

namespace Phrasebook.Numeral

/-- A natural number in decimal, without leading zeros. -/
def ofNat (n : Nat) : Text := (Nat.toDigits 10 n).map CodePoint.ofChar

/-- An integer in decimal, with a minus sign if it is negative. -/
def ofInt : Int → Text
  | .ofNat n => ofNat n
  | .negSucc n => CodePoint.ofChar '-' :: ofNat (n + 1)

/-- The last `width` hexadecimal digits of a number, in lower case. -/
def hex (width n : Nat) : Text :=
  ((List.range width).map fun i => CodePoint.ofChar (Nat.digitChar (n / Nat.pow 16 i % 16))).reverse

/-- The value of an ASCII digit. -/
def digitValue (c : CodePoint) : Nat := c.val - 0x30

/-- The value of a hexadecimal digit of either case. -/
def hexValue? (c : CodePoint) : Option Nat :=
  if c.isDigit then some (c.val - 0x30)
  else if c.within 0x41 0x46 then some (c.val - 0x37)
  else if c.within 0x61 0x66 then some (c.val - 0x57)
  else none

/-- The value of a run of digits in a base, the most significant first. -/
def value (base : Nat) (digits : List Nat) : Nat := digits.foldl (fun n d => n * base + d) 0

/-- The value of a text of ASCII digits. -/
def toNat (digits : Text) : Nat := value 10 (digits.map digitValue)

/-- The value of a text of hexadecimal digits, if it has no other code points. -/
def hexToNat? (digits : Text) : Option Nat := (digits.mapM hexValue?).map (value 16)

/-- A whole number of base 16 written with four digits, as escapes spell it. -/
def escape (c : CodePoint) : Text := "\\u" ++ hex 4 c.val

end Phrasebook.Numeral
