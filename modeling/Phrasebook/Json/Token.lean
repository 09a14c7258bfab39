import Phrasebook.Diagnostic.Problem
import Phrasebook.Number.Decimal

/-! # JSON tokens

The tokens of a JSON text with their offsets. Reading stops at the first place where no token can be
read; what is wrong there is itself a token, because it is reported only where a value or a name may
stand. The last token of a text without such a place is its end. -/

namespace Phrasebook.Json

/-- Why a string literal cannot be read. -/
inductive LiteralFault where
  /-- The closing quotation mark is missing. -/
  | unterminated
  /-- A control character stands for itself. -/
  | controlCharacter
  /-- A backslash begins no escape. -/
  | invalidEscape
  /-- An escape lacks its four hexadecimal digits. -/
  | invalidUnicodeEscape
deriving DecidableEq

/-- A token. -/
inductive Token where
  | beginObject
  | endObject
  | beginArray
  | endArray
  | colon
  | comma
  | null
  | bool (b : Bool)
  | number (n : Number)
  | text (t : Text)
  /-- A whole number with more digits than are converted. -/
  | longInteger (digits : Nat)
  /-- A string literal that cannot be read because of what stands at an offset. -/
  | badLiteral (fault : LiteralFault) (offset : Nat)
  /-- A place where no token begins. -/
  | junk
  /-- The end of the text. -/
  | finish
deriving DecidableEq

/-- A token and the offset at which it begins. -/
structure PlacedToken where
  offset : Nat
  token : Token
deriving DecidableEq

/-- A token at the front of a text and the number of its code points. -/
structure Lexeme where
  token : Token
  width : Nat

/-! ### String literals -/

/-- A code point of a string literal: written as itself or a short escape, or as the number of a
UTF-16 unit. -/
structure LiteralItem where
  point : CodePoint
  isUnit : Bool

/-- The code point that a one-letter escape stands for. -/
def shortEscape? (c : CodePoint) : Option CodePoint :=
  if c = CodePoint.doubleQuote || c = CodePoint.backslash || c = CodePoint.ofChar '/' then some c
  else if c = CodePoint.ofChar 'b' then some (CodePoint.ofNat 0x08)
  else if c = CodePoint.ofChar 'f' then some (CodePoint.ofNat 0x0C)
  else if c = CodePoint.ofChar 'n' then some CodePoint.lf
  else if c = CodePoint.ofChar 'r' then some CodePoint.cr
  else if c = CodePoint.ofChar 't' then some CodePoint.tab
  else none

/-- The items of a string literal from inside it, up to the closing quotation mark, and the number
of code points read; or what is wrong, with its offset from there. An escape of four digits needs
some text after it. -/
def literalItems (offset : Nat) : Text → Except (LiteralFault × Nat) (List LiteralItem × Nat)
  | [] => .error (.unterminated, 0)
  | c :: rest =>
    if c = CodePoint.doubleQuote then .ok ([], offset + 1)
    else if c = CodePoint.backslash then
      match rest with
      | [] => .error (.unterminated, 0)
      | e :: rest =>
        if e = CodePoint.ofChar 'u' then
          match rest with
          | d₁ :: d₂ :: d₃ :: d₄ :: rest =>
            match Numeral.hexToNat? [d₁, d₂, d₃, d₄], rest.isEmpty with
            | some n, false =>
              (literalItems (offset + 6) rest).map fun (items, width) =>
                (⟨CodePoint.ofNat n, true⟩ :: items, width)
            | _, _ => .error (.invalidUnicodeEscape, offset + 1)
          | _ => .error (.invalidUnicodeEscape, offset + 1)
        else
          match shortEscape? e with
          | some point =>
            (literalItems (offset + 2) rest).map fun (items, width) =>
              (⟨point, false⟩ :: items, width)
          | none => .error (.invalidEscape, offset)
    else if c.val < 0x20 then .error (.controlCharacter, offset)
    else
      (literalItems (offset + 1) rest).map fun (items, width) => (⟨c, false⟩ :: items, width)

/-- The text of the items: two units that are the halves of a surrogate pair join. -/
def joinUnits : List LiteralItem → Text
  | [] => []
  | first :: rest =>
    match rest with
    | [] => [first.point]
    | second :: rest' =>
      if first.isUnit && second.isUnit && first.point.isHighSurrogate &&
          second.point.isLowSurrogate then
        CodePoint.joinSurrogates first.point second.point :: joinUnits rest'
      else first.point :: joinUnits (second :: rest')

/-- The string literal whose opening quotation mark stands at an offset before the text. -/
def literalLexeme (offset : Nat) (inside : Text) : Lexeme :=
  match literalItems 1 inside with
  | .ok (items, width) => ⟨.text (joinUnits items), width⟩
  | .error (.unterminated, _) => ⟨.badLiteral .unterminated offset, 1⟩
  | .error (fault, place) => ⟨.badLiteral fault (offset + place), 1⟩

/-! ### Numbers and words -/

/-- The fraction at the front of a text: a point and digits, or nothing. -/
def fractionPart (t : Text) : Text :=
  match t with
  | [] => []
  | c :: rest =>
    let digits := rest.takeWhile (·.isDigit)
    if c = CodePoint.ofChar '.' && !digits.isEmpty then c :: digits else []

/-- The exponent at the front of a text: a mark, an optional sign and digits, or nothing. -/
def exponentPart (t : Text) : Text :=
  match t with
  | [] => []
  | c :: rest =>
    let sign := rest.take (if (Decimal.takeSign rest).2.length < rest.length then 1 else 0)
    let digits := (rest.drop sign.length).takeWhile (·.isDigit)
    if (c = CodePoint.ofChar 'e' || c = CodePoint.ofChar 'E') && !digits.isEmpty then
      c :: (sign ++ digits)
    else []

/-- The digits of the whole part at the front of a text: a zero, or digits that do not begin with
one. -/
def wholePart (t : Text) : Text :=
  if t.head? = some (CodePoint.ofChar '0') then t.take 1 else t.takeWhile (·.isDigit)

/-- The number at the front of a text. One with a fraction or an exponent is of double precision. -/
def numberLexeme? (t : Text) : Option Lexeme :=
  let sign := if t.head? = some (CodePoint.ofChar '-') then t.take 1 else []
  let whole := wholePart (t.drop sign.length)
  let fraction := fractionPart (t.drop (sign.length + whole.length))
  let exponent := exponentPart (t.drop (sign.length + whole.length + fraction.length))
  let all := sign ++ whole ++ fraction ++ exponent
  if whole.isEmpty then none
  else if fraction.isEmpty && exponent.isEmpty then
    if Crash.digitLimit < whole.length then some ⟨.longInteger whole.length, all.length⟩
    else
      let n : Int := Numeral.toNat whole
      some ⟨.number (.int (if sign.isEmpty then n else -n)), all.length⟩
  else (Decimal.number? all).map fun x => ⟨.number (.float x), all.length⟩

/-- The words of the format and their tokens. -/
def words : List (Text × Token) :=
  [("null", .null), ("true", .bool true), ("false", .bool false),
    ("NaN", .number (.float .nan)), ("Infinity", .number (.float (.infinite false))),
    ("-Infinity", .number (.float (.infinite true)))]

/-- The word at the front of a text. -/
def wordLexeme? (t : Text) : Option Lexeme :=
  (words.find? fun word => Text.startsWith t word.1).map fun word => ⟨word.2, word.1.length⟩

/-- The token of a punctuation mark. -/
def punctuation? (c : CodePoint) : Option Token :=
  if c = CodePoint.openBrace then some .beginObject
  else if c = CodePoint.closeBrace then some .endObject
  else if c = CodePoint.ofChar '[' then some .beginArray
  else if c = CodePoint.ofChar ']' then some .endArray
  else if c = CodePoint.ofChar ':' then some .colon
  else if c = CodePoint.ofChar ',' then some .comma
  else none

/-- The token of a text that begins with a code point, at an offset. -/
def lexeme (offset : Nat) (c : CodePoint) (rest : Text) : Lexeme :=
  match punctuation? c with
  | some token => ⟨token, 1⟩
  | none =>
    if c = CodePoint.doubleQuote then literalLexeme offset rest
    else ((wordLexeme? (c :: rest)).or (numberLexeme? (c :: rest))).getD ⟨.junk, 1⟩

/-! ### Texts -/

/-- Whether a code point may stand between tokens. -/
def isBlank (c : CodePoint) : Bool :=
  c = CodePoint.space || c = CodePoint.tab || c = CodePoint.lf || c = CodePoint.cr

/-- Whether reading ends with a token. -/
def Token.isLast : Token → Bool
  | .badLiteral .. | .junk | .finish => true
  | _ => false

/-- The tokens of the rest of a text that begins at an offset. -/
def tokensFrom (offset : Nat) (t : Text) : List PlacedToken :=
  match t with
  | [] => [⟨offset, .finish⟩]
  | c :: rest =>
    if isBlank c then tokensFrom (offset + 1) rest
    else
      let l := lexeme offset c rest
      if l.token.isLast then [⟨offset, l.token⟩]
      else ⟨offset, l.token⟩ :: tokensFrom (offset + max l.width 1) (rest.drop (l.width - 1))
termination_by t.length
decreasing_by
  · simp
  · simp only [List.length_drop, List.length_cons]
    omega

/-- **The tokens of a text.** -/
def tokens (t : Text) : List PlacedToken := tokensFrom 0 t

end Phrasebook.Json
