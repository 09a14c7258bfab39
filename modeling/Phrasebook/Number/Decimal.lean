import Phrasebook.Number.Binary64

/-! # Decimal text of numbers

A double-precision number is written with the fewest digits that read back as the same number, and
of those with the ones nearest to it. Reading takes the sign, the digits around a point and an
exponent. -/

namespace Phrasebook

/-! ### Shortest digits -/

namespace Decimal

/-- Whether the quotient `num / den` is at least `10 ^ k`. -/
def reaches (num den : Nat) (k : Int) : Bool :=
  if 0 ≤ k then den * Nat.pow 10 k.toNat ≤ num else den ≤ num * Nat.pow 10 (-k).toNat

/-- The exponent of the first digit of a positive quotient in scientific form. -/
def leadingExponent (num den : Nat) : Int :=
  let k : Int := ((Nat.toDigits 10 num).length : Int) - (Nat.toDigits 10 den).length
  if reaches num den k then k else k - 1

/-- The quotient `num / (den * 10 ^ k)` as numerator and denominator. -/
def scaled (num den : Nat) (k : Int) : Nat × Nat :=
  if 0 ≤ k then (num, den * Nat.pow 10 k.toNat) else (num * Nat.pow 10 (-k).toNat, den)

/-- The positive numbers around a mantissa and exponent that round to them: the lower end, the
number itself and the upper end over one denominator. -/
structure Interval where
  low : Nat
  exact : Nat
  high : Nat
  den : Nat
  /-- Whether the ends round to the number too. -/
  closed : Bool

/-- The interval of the reals that round to a positive number. -/
def interval (mantissa : Nat) (exponent : Int) : Interval :=
  let unit := Binary64.powerOfTwo (exponent - 2)
  let below := if mantissa = Binary64.leastNormal ∧ Binary64.leastExponent < exponent then 1 else 2
  ⟨(4 * mantissa - below) * unit.1, 4 * mantissa * unit.1, (4 * mantissa + 2) * unit.1, unit.2,
    mantissa % 2 = 0⟩

/-- Whether `c * 10 ^ k` lies in the interval. -/
def Interval.holds (i : Interval) (c : Nat) (k : Int) : Bool :=
  let (num, den) := if 0 ≤ k then (c * Nat.pow 10 k.toNat, 1) else (c, Nat.pow 10 (-k).toNat)
  if i.closed then i.low * den ≤ num * i.den && num * i.den ≤ i.high * den
  else i.low * den < num * i.den && num * i.den < i.high * den

/-- The coefficient of a point of the grid `10 ^ k` in the interval, if one of the two neighbours of
the number lies there; of both the nearer, and of two equally near the even one. -/
def Interval.neighbour? (i : Interval) (k : Int) : Option Nat :=
  let (num, den) := scaled i.exact i.den k
  let c := num / den
  match i.holds c k, i.holds (c + 1) k with
  | true, true => some (Binary64.roundDiv num den)
  | true, false => some c
  | false, true => some (c + 1)
  | false, false => none

/-- The coefficient and exponent of the shortest decimal in the interval: the coarsest grid with a
point in it, of at most seventeen digits. -/
def Interval.shortest (i : Interval) : Nat × Int :=
  let leading := leadingExponent i.exact i.den
  let grids := (List.range 17).map fun (d : Nat) => leading - (d : Int)
  match grids.findSome? fun k => (i.neighbour? k).map (·, k) with
  | some point => point
  | none => (i.exact / i.den, 0)

/-- The digits of a coefficient without the zeros at its end. -/
def significant (coefficient : Nat) : Text :=
  ((Numeral.ofNat coefficient).reverse.dropWhile (· = CodePoint.ofChar '0')).reverse

/-- A run of zeros. -/
def zeros (n : Nat) : Text := List.replicate n (CodePoint.ofChar '0')

/-- The first exponent that is written in positional form. -/
def leastPositional : Int := -4

/-- The first exponent above that is written in exponent form again. -/
def positionalLimit : Int := 16

/-- Digits of which the first has the given exponent: in positional form with a point, or in
exponent form with a sign and at least two exponent digits. -/
def layOut (digits : Text) (exponent : Int) : Text :=
  if leastPositional ≤ exponent && exponent < positionalLimit then
    if exponent < 0 then "0." ++ zeros (-exponent - 1).toNat ++ digits
    else
      let whole := exponent.toNat + 1
      if digits.length ≤ whole then digits ++ zeros (whole - digits.length) ++ ".0"
      else digits.take whole ++ "." ++ digits.drop whole
  else
    let fraction : Text := if digits.length ≤ 1 then [] else "." ++ digits.drop 1
    let sign : Text := if exponent < 0 then "-" else "+"
    let size := Numeral.ofNat exponent.natAbs
    digits.take 1 ++ fraction ++ "e" ++ sign ++ zeros (2 - size.length) ++ size

end Decimal

/-- **The text of a double-precision number**: the shortest digits that read back as it. -/
def Binary64.toText : Binary64 → Text
  | .nan => "nan"
  | .infinite negative => if negative then "-inf" else "inf"
  | .finite negative mantissa exponent =>
    let sign : Text := if negative then "-" else []
    if mantissa = 0 then sign ++ "0.0"
    else
      let (c, k) := (Decimal.interval mantissa exponent).shortest
      let size := (Numeral.ofNat c).length
      sign ++ Decimal.layOut (Decimal.significant c) (k + size - 1)

/-! ### Reading -/

namespace Decimal

/-- An optional sign and what follows it; the flag says that it is a minus sign. -/
def takeSign (t : Text) : Bool × Text :=
  match t with
  | [] => (false, [])
  | c :: rest =>
    if c = CodePoint.ofChar '-' then (true, rest)
    else if c = CodePoint.ofChar '+' then (false, rest)
    else (false, t)

/-- The exponent at the end of a decimal: nothing, or a mark, an optional sign and digits. -/
def exponent? (t : Text) : Option Int :=
  match t with
  | [] => some 0
  | c :: rest =>
    let (negative, digits) := takeSign rest
    if (c = CodePoint.ofChar 'e' || c = CodePoint.ofChar 'E') && !digits.isEmpty &&
        digits.all (·.isDigit) then
      let n : Int := Numeral.toNat digits
      some (if negative then -n else n)
    else none

/-- The number nearest to a decimal: an optional sign, digits with at most one point among them, and
an optional exponent. -/
def number? (t : Text) : Option Binary64 :=
  let (negative, unsigned) := takeSign t
  let whole := unsigned.takeWhile (·.isDigit)
  let tail := unsigned.dropWhile (·.isDigit)
  let (fraction, tail) :=
    match tail with
    | [] => ([], [])
    | c :: rest =>
      if c = CodePoint.ofChar '.' then (rest.takeWhile (·.isDigit), rest.dropWhile (·.isDigit))
      else ([], tail)
  let digits := whole ++ fraction
  if digits.isEmpty then none
  else
    (exponent? tail).map fun e =>
      Binary64.ofDecimal negative (Numeral.toNat digits) (e - fraction.length)

end Decimal

/-! ### Whole and double-precision numbers -/

/-- A number: whole, of any size, or of double precision. -/
inductive Number where
  | int (n : Int)
  | float (x : Binary64)
deriving DecidableEq

namespace Number

/-- The text of a number. -/
def toText : Number → Text
  | .int n => Numeral.ofInt n
  | .float x => x.toText

/-- Whether a number is below zero. -/
def isNegative : Number → Bool
  | .int n => n < 0
  | .float x => x.isNegative

/-- Whether two numbers have the same value. -/
def same : Number → Number → Bool
  | .int m, .int n => m == n
  | .int m, .float y => y.toInt? == some m
  | .float x, .int n => x.toInt? == some n
  | .float x, .float y => x.le y && y.le x

/-- The number as one of double precision, if it is not out of range. -/
def toBinary64? : Number → Option Binary64
  | .int n => Binary64.ofInt? n
  | .float x => some x

end Number

end Phrasebook
