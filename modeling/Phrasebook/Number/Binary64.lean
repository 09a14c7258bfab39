import Phrasebook.Text.Numeral

/-! # Double-precision numbers

Numbers of 53 significant bits, with exact arithmetic on their mantissas: rounding a quotient to the
nearest number, reading a decimal, the order and the sum. A half goes to the even neighbour. -/

namespace Phrasebook

/-- **A double-precision number.** A finite one is `mantissa * 2 ^ exponent` with its sign; it is
written with a mantissa below `2 ^ 53` and the least exponent, from `-1074` on, that allows it. -/
inductive Binary64 where
  | finite (negative : Bool) (mantissa : Nat) (exponent : Int)
  | infinite (negative : Bool)
  | nan
deriving DecidableEq

namespace Binary64

/-- The least exponent of a number. -/
def leastExponent : Int := -1074

/-- The greatest exponent of a finite number. -/
def greatestExponent : Int := 971

/-- The bound of the mantissas. -/
def mantissaBound : Nat := Nat.pow 2 53

/-- The least mantissa of a number whose exponent is not the least one. -/
def leastNormal : Nat := Nat.pow 2 52

/-- Zero with a sign. -/
def zero (negative : Bool) : Binary64 := .finite negative 0 leastExponent

/-- A quotient rounded to the nearest whole number, a half to the even one. -/
def roundDiv (num den : Nat) : Nat :=
  let q := num / den
  let r := num % den
  if 2 * r < den then q else if den < 2 * r then q + 1 else if q % 2 = 0 then q else q + 1

/-- `2 ^ e` as a quotient of natural numbers. -/
def powerOfTwo (e : Int) : Nat × Nat :=
  if 0 ≤ e then (Nat.pow 2 e.toNat, 1) else (1, Nat.pow 2 (-e).toNat)

/-- The quotient `num / (den * 2 ^ e)` as numerator and denominator. -/
def scaled (num den : Nat) (e : Int) : Nat × Nat :=
  (num * (powerOfTwo e).2, den * (powerOfTwo e).1)

/-- The number nearest to a quotient, with the given sign. -/
def ofQuotient (negative : Bool) (num den : Nat) : Binary64 :=
  if num = 0 then zero negative
  else
    let low := max leastExponent ((num.log2 : Int) - (den.log2 : Int) - 53)
    let wide := scaled num den low
    let e := if mantissaBound ≤ wide.1 / wide.2 then low + 1 else low
    let exact := scaled num den e
    let m := roundDiv exact.1 exact.2
    let (m, e) := if m = mantissaBound then (leastNormal, e + 1) else (m, e)
    if greatestExponent < e then .infinite negative
    else if m = 0 then zero negative
    else .finite negative m e

/-- The number nearest to an integer, if the integer is not out of range. -/
def ofInt? (n : Int) : Option Binary64 :=
  match ofQuotient (n < 0) n.natAbs 1 with
  | .infinite _ => none
  | x => some x

/-- The number nearest to `coefficient * 10 ^ exponent`. Exponents far out of range are answered
without computing the power. -/
def ofDecimal (negative : Bool) (coefficient : Nat) (exponent : Int) : Binary64 :=
  let digits : Int := (Nat.toDigits 10 coefficient).length
  if coefficient = 0 then zero negative
  else if 400 < digits + exponent then .infinite negative
  else if digits + exponent < -400 then zero negative
  else if 0 ≤ exponent then ofQuotient negative (coefficient * Nat.pow 10 exponent.toNat) 1
  else ofQuotient negative coefficient (Nat.pow 10 (-exponent).toNat)

/-- The mantissa with its sign, over a common exponent not above the number's own. -/
def signedMantissa (negative : Bool) (mantissa : Nat) (exponent common : Int) : Int :=
  let m := mantissa * Nat.pow 2 (exponent - common).toNat
  if negative then -m else m

/-- Whether a number lies strictly below another; nothing is below or above a NaN. -/
def lt : Binary64 → Binary64 → Bool
  | .nan, _ => false
  | _, .nan => false
  | .infinite a, .infinite b => a && !b
  | .infinite a, .finite .. => a
  | .finite .., .infinite b => !b
  | .finite a m e, .finite b n f =>
    signedMantissa a m e (min e f) < signedMantissa b n f (min e f)

/-- Whether a number is at most another. -/
def le : Binary64 → Binary64 → Bool
  | .nan, _ => false
  | _, .nan => false
  | x, y => !lt y x

/-- The sum of two numbers, rounded. -/
def add : Binary64 → Binary64 → Binary64
  | .nan, _ => .nan
  | _, .nan => .nan
  | .infinite a, .infinite b => if a = b then .infinite a else .nan
  | .infinite a, .finite .. => .infinite a
  | .finite .., .infinite b => .infinite b
  | .finite a m e, .finite b n f =>
    let common := min e f
    let sum := signedMantissa a m e common + signedMantissa b n f common
    if sum = 0 then zero (a && b)
    else
      let unit := powerOfTwo common
      ofQuotient (sum < 0) (sum.natAbs * unit.1) unit.2

/-- Whether a number is below zero. -/
def isNegative (x : Binary64) : Bool := lt x (zero false)

/-- The integer a number equals, if it is one. -/
def toInt? : Binary64 → Option Int
  | .finite negative m e =>
    let unit := powerOfTwo e
    if m * unit.1 % unit.2 = 0 then
      let n : Int := (m * unit.1 / unit.2 : Nat)
      some (if negative then -n else n)
    else none
  | _ => none

end Binary64

end Phrasebook
