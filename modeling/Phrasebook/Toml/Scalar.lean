import Phrasebook.Diagnostic.Problem
import Phrasebook.Document.Datum
import Phrasebook.Toml.Fault

/-! # Strings, numbers and dates in TOML

The values that hold no others. A string is basic, with escapes, or literal, and of either kind on
one line or on several. -/

namespace Phrasebook.Toml

/-! ### Layout -/

/-- A space or a tab. -/
def isBlank (c : CodePoint) : Bool := c = CodePoint.space || c = CodePoint.tab

/-- A space, a tab or a line feed. -/
def isBlankOrBreak (c : CodePoint) : Bool := isBlank c || c = CodePoint.lf

/-- The text without the blanks in front. -/
def skipBlanks (t : Text) : Text := t.dropWhile isBlank

/-- A control character other than the tab. -/
def isControl (c : CodePoint) : Bool := (c.val < 0x20 || c.val = 0x7F) && c ≠ CodePoint.tab

/-- A control character other than the tab and the line feed. -/
def isControlInLines (c : CodePoint) : Bool := isControl c && c ≠ CodePoint.lf

/-- A run of code points before the rest of a text, none of which may be of a class. -/
def checkRun (isBad : CodePoint → Bool) (run rest : Text) : Except Fault Unit :=
  match run.dropWhile (!isBad ·) with
  | [] => .ok ()
  | c :: more => .error (.malformed (.invalidCharacter c) (more.length + 1 + rest.length))

/-- The mark that opens a comment. -/
def commentMark : CodePoint := CodePoint.ofChar '#'

/-- The text after a comment at its front, if there is one: its line feed or its end. -/
def skipComment (t : Text) : Except Fault Text :=
  if t.head? = some commentMark then
    let rest := t.dropWhile (· ≠ CodePoint.lf)
    (checkRun isControl (t.takeWhile (· ≠ CodePoint.lf)) rest).map fun _ => rest
  else .ok t

/-- The text after the blanks, line feeds and comments at its front; the flag says that a comment
has begun. -/
def skipLayout (inComment : Bool) : Text → Except Fault Text
  | [] => .ok []
  | c :: rest =>
    if inComment then
      if c = CodePoint.lf then skipLayout false rest
      else if isControl c then refuse (.invalidCharacter c) (c :: rest)
      else skipLayout true rest
    else if isBlankOrBreak c then skipLayout false rest
    else if c = commentMark then skipLayout true rest
    else .ok (c :: rest)

/-! ### Strings -/

/-- Where a reader of a basic string stands. -/
inductive StringPlace where
  /-- Between two code points of the string. -/
  | inside
  /-- After a backslash at the end of a line, where blanks and line feeds are dropped. -/
  | folding
  /-- After a backslash and a blank, where only blanks may come up to the end of the line. -/
  | beforeFold
deriving DecidableEq

/-- The code point that a one-letter escape stands for. -/
def shortEscape? (c : CodePoint) : Option CodePoint :=
  if c = CodePoint.doubleQuote || c = CodePoint.backslash then some c
  else if c = CodePoint.ofChar 'b' then some (CodePoint.ofNat 0x08)
  else if c = CodePoint.ofChar 't' then some CodePoint.tab
  else if c = CodePoint.ofChar 'n' then some CodePoint.lf
  else if c = CodePoint.ofChar 'f' then some (CodePoint.ofNat 0x0C)
  else if c = CodePoint.ofChar 'r' then some CodePoint.cr
  else none

/-- The code point that the digits of an escape stand for, with the text from the digits on and the
text after them. -/
def scalar (digits fromDigits rest : Text) : Except Fault CodePoint :=
  match Numeral.hexToNat? digits with
  | none => refuse .invalidHex fromDigits
  | some n =>
    if n < 0x110000 ∧ (CodePoint.ofNat n).isSurrogate = false then .ok (CodePoint.ofNat n)
    else refuse .notScalar rest

/-- Two quotation marks, which after a third one close a string of several lines. -/
def twoQuotes : Text := [CodePoint.doubleQuote, CodePoint.doubleQuote]

/-- **A basic string** from inside it, up to and with its closing mark. -/
def basicString (multiline : Bool) (place : StringPlace) : Text → Reading Text
  | [] => refuse .unterminatedString []
  | c :: rest =>
    if place = .folding ∧ isBlankOrBreak c = true then basicString multiline .folding rest
    else if place = .beforeFold then
      if isBlank c then basicString multiline .beforeFold rest
      else if c = CodePoint.lf then basicString multiline .folding rest
      else refuse .unescapedBackslash (c :: rest)
    else if c = CodePoint.doubleQuote then
      if !multiline then .ok ([], rest)
      else if Text.startsWith rest twoQuotes then .ok ([], rest.drop 2)
      else (basicString multiline .inside rest).map fun (t, left) => (c :: t, left)
    else if c = CodePoint.backslash then
      match rest with
      | [] => refuse .unescapedBackslash []
      | e :: rest =>
        if multiline && e = CodePoint.lf then basicString multiline .folding rest
        else if multiline && isBlank e then basicString multiline .beforeFold rest
        else if e = CodePoint.ofChar 'u' then
          match rest with
          | d₁ :: d₂ :: d₃ :: d₄ :: left =>
            match scalar [d₁, d₂, d₃, d₄] (d₁ :: d₂ :: d₃ :: d₄ :: left) left with
            | .error fault => .error fault
            | .ok point =>
              (basicString multiline .inside left).map fun (t, left) => (point :: t, left)
          | _ => refuse .invalidHex rest
        else if e = CodePoint.ofChar 'U' then
          match rest with
          | d₁ :: d₂ :: d₃ :: d₄ :: d₅ :: d₆ :: d₇ :: d₈ :: left =>
            match scalar [d₁, d₂, d₃, d₄, d₅, d₆, d₇, d₈]
                (d₁ :: d₂ :: d₃ :: d₄ :: d₅ :: d₆ :: d₇ :: d₈ :: left) left with
            | .error fault => .error fault
            | .ok point =>
              (basicString multiline .inside left).map fun (t, left) => (point :: t, left)
          | _ => refuse .invalidHex rest
        else
          match shortEscape? e with
          | some point =>
            (basicString multiline .inside rest).map fun (t, left) => (point :: t, left)
          | none => refuse .unescapedBackslash rest
    else if multiline && isControlInLines c || !multiline && isControl c then
      refuse (.illegalCharacter c) (c :: rest)
    else (basicString multiline .inside rest).map fun (t, left) => (c :: t, left)

/-- Three of a quotation mark. -/
def threeOf (quote : CodePoint) : Text := [quote, quote, quote]

/-- The text before and after the first occurrence of another. -/
def cutAt? (mark : Text) : Text → Option (Text × Text)
  | [] => if mark.isEmpty then some ([], []) else none
  | c :: rest =>
    match Text.dropBeginning? mark (c :: rest) with
    | some left => some ([], left)
    | none => (cutAt? mark rest).map fun (before, left) => (c :: before, left)

/-- A literal string from inside it, up to and with its closing mark. -/
def literalString (mark : Text) (isBad : CodePoint → Bool) (t : Text) : Reading Text :=
  match cutAt? mark t with
  | none => refuse (.expectedMark mark) []
  | some (run, left) => (checkRun isBad run (mark ++ left)).map fun _ => (run, left)

/-- A string of several lines with the one or two quotation marks that may stand before the three
that close it. -/
def withExtraQuotes (quote : CodePoint) (t left : Text) : Text × Text :=
  let extra := min 2 (left.takeWhile (· = quote)).length
  (t ++ List.replicate extra quote, left.drop extra)

/-- A text without the line feed at its front. -/
def dropBreak (t : Text) : Text := if t.head? = some CodePoint.lf then t.drop 1 else t

/-- A string at the front of a text, if one begins there. -/
def string? (t : Text) : Option (Reading Text) :=
  let linesOf (quote : CodePoint) (reading : Reading Text) : Reading Text :=
    reading.map fun (inner, left) => withExtraQuotes quote inner left
  if Text.startsWith t (threeOf CodePoint.doubleQuote) then
    some (linesOf CodePoint.doubleQuote (basicString true .inside (dropBreak (t.drop 3))))
  else if t.head? = some CodePoint.doubleQuote then some (basicString false .inside (t.drop 1))
  else if Text.startsWith t (threeOf CodePoint.singleQuote) then
    some (linesOf CodePoint.singleQuote
      (literalString (threeOf CodePoint.singleQuote) isControlInLines (dropBreak (t.drop 3))))
  else if t.head? = some CodePoint.singleQuote then
    some (literalString [CodePoint.singleQuote] isControl (t.drop 1))
  else none

/-! ### Numbers -/

/-- The underscore, which may stand between two digits. -/
def underscore : CodePoint := CodePoint.ofChar '_'

/-- The digits after a digit, each with or without an underscore before it, and the rest. -/
def moreDigits (isMember : CodePoint → Bool) : Text → Text × Text
  | [] => ([], [])
  | c :: rest =>
    if isMember c then
      let (digits, left) := moreDigits isMember rest
      (c :: digits, left)
    else if c = underscore then
      match rest with
      | [] => ([], [c])
      | d :: rest =>
        if isMember d then
          let (digits, left) := moreDigits isMember rest
          (d :: digits, left)
        else ([], c :: d :: rest)
    else ([], c :: rest)

/-- A run of at least one digit of a class, and the rest. -/
def digits? (isMember : CodePoint → Bool) (t : Text) : Option (Text × Text) :=
  match t with
  | [] => none
  | c :: rest =>
    if isMember c then
      let (digits, left) := moreDigits isMember rest
      some (c :: digits, left)
    else none

/-- The letter that names a base, with the base. -/
def baseOf? (c : CodePoint) : Option Nat :=
  if c = CodePoint.ofChar 'x' then some 16
  else if c = CodePoint.ofChar 'o' then some 8
  else if c = CodePoint.ofChar 'b' then some 2
  else none

/-- Whether a code point is a digit of a base. -/
def isDigitOf (base : Nat) (c : CodePoint) : Bool :=
  match Numeral.hexValue? c with
  | some n => n < base
  | none => false

/-- A whole number in another base than ten, with a zero and a letter in front. -/
def otherBase? (t : Text) : Option (Number × Text) :=
  match t with
  | zero :: letter :: rest =>
    if zero = CodePoint.ofChar '0' then
      (baseOf? letter).bind fun base =>
        (digits? (isDigitOf base) rest).map fun (digits, left) =>
          (.int (Numeral.value base (digits.filterMap Numeral.hexValue?)), left)
    else none
  | _ => none

/-- A text after its sign, if it has one, and the sign. -/
def sign (t : Text) : Text × Text :=
  match t with
  | [] => ([], [])
  | c :: rest =>
    if c = CodePoint.ofChar '-' || c = CodePoint.ofChar '+' then ([c], rest) else ([], t)

/-- The whole part of a decimal: a single zero, or digits without a zero in front. -/
def wholePart? (t : Text) : Option (Text × Text) :=
  match t with
  | [] => none
  | c :: rest => if c = CodePoint.ofChar '0' then some ([c], rest) else digits? CodePoint.isDigit t

/-- The fraction of a decimal with its point, empty if there is none. -/
def fraction (t : Text) : Text × Text :=
  match t with
  | [] => ([], [])
  | c :: rest =>
    if c = CodePoint.ofChar '.' then
      match digits? CodePoint.isDigit rest with
      | some (digits, left) => (c :: digits, left)
      | none => ([], t)
    else ([], t)

/-- The exponent of a decimal with its mark, empty if there is none. -/
def exponent (t : Text) : Text × Text :=
  match t with
  | [] => ([], [])
  | c :: rest =>
    if c = CodePoint.ofChar 'e' || c = CodePoint.ofChar 'E' then
      match digits? CodePoint.isDigit (sign rest).2 with
      | some (digits, left) => (c :: (sign rest).1 ++ digits, left)
      | none => ([], t)
    else ([], t)

/-- A decimal of double precision, as it was read. -/
def decimal (t : Text) : Number := .float ((Decimal.number? t).getD .nan)

/-- A whole number in base ten, unless it has more digits than are converted. -/
def wholeNumber (signText digits : Text) : Except Fault Number :=
  if Crash.digitLimit < digits.length then .error (.integerTooLong digits.length)
  else
    let n : Int := Numeral.toNat digits
    .ok (.int (if signText = [CodePoint.ofChar '-'] then -n else n))

/-- A number in base ten, whole unless it has a fraction or an exponent. -/
def baseTen? (t : Text) : Option (Reading Number) :=
  let (signText, rest) := sign t
  (wholePart? rest).map fun (whole, rest) =>
    let (fraction, rest) := fraction rest
    let (exponent, rest) := exponent rest
    if fraction.isEmpty && exponent.isEmpty then
      (wholeNumber signText whole).map fun n => (n, rest)
    else .ok (decimal (signText ++ whole ++ fraction ++ exponent), rest)

/-- Infinity or not a number by name, with or without a sign. -/
def named? (t : Text) : Option (Number × Text) :=
  let (signText, rest) := sign t
  let negative : Bool := signText = [CodePoint.ofChar '-']
  match Text.dropBeginning? "inf" rest, Text.dropBeginning? "nan" rest with
  | some left, _ => some (.float (.infinite negative), left)
  | none, some left => some (.float .nan, left)
  | none, none => none

/-- A number at the front of a text, if one begins there. -/
def number? (t : Text) : Option (Reading Number) :=
  match otherBase? t with
  | some reading => some (.ok reading)
  | none => (baseTen? t).or ((named? t).map .ok)

/-! ### Dates and times -/

/-- A number of exactly so many digits at the front of a text. -/
def fixed? (width : Nat) (t : Text) : Option (Nat × Text) :=
  let digits := t.take width
  if digits.length = width ∧ digits.all (·.isDigit) = true then
    some (Numeral.toNat digits, t.drop width)
  else none

/-- The text after a given code point at its front. -/
def after? (c : CodePoint) (t : Text) : Option Text :=
  if t.head? = some c then some (t.drop 1) else none

/-- An hour and a minute with a colon between them. -/
def clock? (t : Text) : Option Text := do
  let (hour, t) ← fixed? 2 t
  let t ← after? (CodePoint.ofChar ':') t
  let (minute, t) ← fixed? 2 t
  if hour < 24 ∧ minute < 60 then some t else none

/-- A time of day; a second may have a fraction. -/
def time? (t : Text) : Option Text := do
  let t ← clock? t
  let t ← after? (CodePoint.ofChar ':') t
  let (second, t) ← fixed? 2 t
  if second < 60 then
    match after? (CodePoint.ofChar '.') t with
    | none => some t
    | some rest =>
      if (rest.takeWhile (·.isDigit)).isEmpty then some t else some (rest.dropWhile (·.isDigit))
  else none

/-- What is left after the offset of a time from universal time, if there is one. -/
def skipOffset (t : Text) : Text :=
  match t with
  | [] => []
  | c :: rest =>
    if c = CodePoint.ofChar 'Z' || c = CodePoint.ofChar 'z' then rest
    else if c = CodePoint.ofChar '+' || c = CodePoint.ofChar '-' then (clock? rest).getD t
    else t

/-- The number of days of a month. -/
def daysOf (year month : Nat) : Nat :=
  if month = 2 then
    if year % 4 = 0 ∧ (year % 100 ≠ 0 ∨ year % 400 = 0) then 29 else 28
  else if month = 4 ∨ month = 6 ∨ month = 9 ∨ month = 11 then 30
  else 31

/-- A year, a month and a day, each in the range of its digits. -/
def date? (t : Text) : Option ((Nat × Nat × Nat) × Text) := do
  let hyphen := CodePoint.ofChar '-'
  let (year, t) ← fixed? 4 t
  let t ← after? hyphen t
  let (month, t) ← fixed? 2 t
  let t ← after? hyphen t
  let (day, t) ← fixed? 2 t
  if 1 ≤ month ∧ month ≤ 12 ∧ 1 ≤ day ∧ day ≤ 31 then some ((year, month, day), t) else none

/-- What follows a date: a time with or without an offset, or nothing of the kind. -/
def dayTime? (t : Text) : Option Text :=
  match t with
  | [] => none
  | c :: rest =>
    if c = CodePoint.ofChar 'T' || c = CodePoint.ofChar 't' || c = CodePoint.space then
      (time? rest).map skipOffset
    else none

/-- A date with or without a time at the front of a text, if one begins there. Year zero and days
beyond the end of a month are refused. -/
def dateTime? (t : Text) : Option (Reading Foreign) :=
  (date? t).map fun ((year, month, day), rest) =>
    if year = 0 ∨ daysOf year month < day then refuse .invalidDate t
    else
      match dayTime? rest with
      | some left => .ok (.dateTime, left)
      | none => .ok (.date, rest)

/-- A time of day at the front of a text, if one begins there. -/
def localTime? (t : Text) : Option (Foreign × Text) := (time? t).map fun left => (.time, left)

/-! ### Scalars -/

/-- The first of some readings that one begins. -/
def truth? (t : Text) : Option (Bool × Text) :=
  match Text.dropBeginning? "true" t, Text.dropBeginning? "false" t with
  | some left, _ => some (true, left)
  | none, some left => some (false, left)
  | none, none => none

/-- **A value that holds no others**, at the front of a text. -/
def readScalar (t : Text) : Reading (Datum Foreign) :=
  match string? t, truth? t, dateTime? t, localTime? t, number? t with
  | some reading, _, _, _, _ => reading.map fun (s, left) => (.text s, left)
  | none, some (b, left), _, _, _ => .ok (.bool b, left)
  | none, none, some reading, _, _ => reading.map fun (kind, left) => (.other kind, left)
  | none, none, none, some (kind, left), _ => .ok (.other kind, left)
  | none, none, none, none, some reading => reading.map fun (n, left) => (.number n, left)
  | none, none, none, none, none => refuse .invalidValue t

end Phrasebook.Toml
