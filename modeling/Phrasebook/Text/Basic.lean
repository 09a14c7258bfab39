import Phrasebook.Sorted

/-! # Text as code points

A `Text` is a list of Unicode code points. Unlike a `String` it may hold lone surrogates: documents
can spell one by an escape, and the rules for quoting and for encoding speak about them. Positions,
lengths and columns count code points, and names are ordered by code point. -/

namespace Phrasebook

/-- A Unicode code point, surrogates included. -/
structure CodePoint where
  /-- The number of the code point. -/
  val : Nat
  val_lt : val < 0x110000
deriving DecidableEq

/-- **A text**: a sequence of code points, of which any may be a lone surrogate. -/
abbrev Text := List CodePoint

namespace CodePoint

/-- The code point of a character. -/
def ofChar (c : Char) : CodePoint :=
  ⟨c.toNat, by
    have h := c.valid
    simp only [Char.toNat, UInt32.isValidChar, Nat.isValidChar] at *
    omega⟩

instance : Coe Char CodePoint := ⟨ofChar⟩

/-- The replacement character, which stands for numbers beyond the last code point. -/
def replacement : CodePoint := ⟨0xFFFD, by decide⟩

/-- The code point with the given number, or the replacement character if there is none. -/
def ofNat (n : Nat) : CodePoint := if h : n < 0x110000 then ⟨n, h⟩ else replacement

/-- Line feed. -/
def lf : CodePoint := ⟨0x0A, by decide⟩

/-- Carriage return. -/
def cr : CodePoint := ⟨0x0D, by decide⟩

/-- Horizontal tab. -/
def tab : CodePoint := ⟨0x09, by decide⟩

/-- The space. -/
def space : CodePoint := ⟨0x20, by decide⟩

/-- The double quotation mark. -/
def doubleQuote : CodePoint := ⟨0x22, by decide⟩

/-- The apostrophe, used as a single quotation mark. -/
def singleQuote : CodePoint := ⟨0x27, by decide⟩

/-- The backslash. -/
def backslash : CodePoint := ⟨0x5C, by decide⟩

/-- The backtick, which delimits template literals. -/
def backtick : CodePoint := ⟨0x60, by decide⟩

/-- The opening brace. -/
def openBrace : CodePoint := ⟨0x7B, by decide⟩

/-- The closing brace. -/
def closeBrace : CodePoint := ⟨0x7D, by decide⟩

/-- Whether a number lies in a range, ends included. -/
def within (low high : Nat) (c : CodePoint) : Bool := low ≤ c.val && c.val ≤ high

/-- Half of a surrogate pair, of either kind. -/
def isSurrogate (c : CodePoint) : Bool := c.within 0xD800 0xDFFF

/-- First half of a surrogate pair. -/
def isHighSurrogate (c : CodePoint) : Bool := c.within 0xD800 0xDBFF

/-- Second half of a surrogate pair. -/
def isLowSurrogate (c : CodePoint) : Bool := c.within 0xDC00 0xDFFF

/-- An ASCII digit. -/
def isDigit (c : CodePoint) : Bool := c.within 0x30 0x39

/-- An ASCII letter. -/
def isLetter (c : CodePoint) : Bool := c.within 0x41 0x5A || c.within 0x61 0x7A

/-- The code point that a surrogate pair stands for. -/
def joinSurrogates (high low : CodePoint) : CodePoint :=
  ofNat (0x10000 + (high.val - 0xD800) * 0x400 + (low.val - 0xDC00))

/-- Code points are ordered by number. -/
instance : LT CodePoint := ⟨fun a b => a.val < b.val⟩

instance : DecidableLT CodePoint := fun a b => inferInstanceAs (Decidable (a.val < b.val))

theorem lt_iff {a b : CodePoint} : a < b ↔ a.val < b.val := Iff.rfl

instance : Std.Irrefl (· < · : CodePoint → CodePoint → Prop) := ⟨fun a => Nat.lt_irrefl a.val⟩

instance : Std.Asymm (· < · : CodePoint → CodePoint → Prop) := ⟨fun _ _ => Nat.lt_asymm⟩

instance : Trans (· < · : CodePoint → CodePoint → Prop) (· < ·) (· < ·) := ⟨Nat.lt_trans⟩

instance : Std.Trichotomous (· < · : CodePoint → CodePoint → Prop) :=
  ⟨fun a b h g => by
    cases a
    cases b
    simp only [lt_iff, mk.injEq] at *
    omega⟩

end CodePoint

namespace Text

/-- The text of a string literal. -/
def ofString (s : String) : Text := s.toList.map CodePoint.ofChar

instance : Coe String Text := ⟨ofString⟩

/-- The parts with a separator between consecutive ones. -/
def join (separator : Text) (parts : List Text) : Text := separator.intercalate parts

/-- The pieces between the occurrences of a code point: one more than there are occurrences. -/
def split (separator : CodePoint) : Text → List Text
  | [] => [[]]
  | c :: rest =>
    if c = separator then [] :: split separator rest
    else
      match split separator rest with
      | [] => [[c]]
      | piece :: pieces => (c :: piece) :: pieces

/-- Whether a text begins with another. -/
def startsWith (t beginning : Text) : Bool := beginning.isPrefixOf t

/-- What follows a given beginning, if the text has it. -/
def dropBeginning? (beginning : Text) (t : Text) : Option Text :=
  if t.startsWith beginning then some (t.drop beginning.length) else none

/-- Whether a text ends with another. -/
def endsWith (t ending : Text) : Bool := ending.isSuffixOf t

/-- The text before and after the first occurrence of a code point, if it occurs. -/
def cut? (separator : CodePoint) (t : Text) : Option (Text × Text) :=
  match t.dropWhile (· ≠ separator) with
  | [] => none
  | _ :: rest => some (t.takeWhile (· ≠ separator), rest)

/-- Line breaks unified from a point on; the flag says that a CR, already turned into a line feed,
stands just before. -/
def unifyLineBreaksFrom (afterCr : Bool) : Text → Text
  | [] => []
  | c :: rest =>
    if c = CodePoint.cr then CodePoint.lf :: unifyLineBreaksFrom true rest
    else if afterCr && c = CodePoint.lf then unifyLineBreaksFrom false rest
    else c :: unifyLineBreaksFrom false rest

/-- Every line break becomes a line feed, whether it was written as CR LF, as CR or as LF. -/
def unifyLineBreaks (t : Text) : Text := unifyLineBreaksFrom false t

instance {α : Type} [LT α] [Trans (· < · : α → α → Prop) (· < · : α → α → Prop) (· < ·)] :
    Trans (· < · : List α → List α → Prop) (· < · : List α → List α → Prop) (· < ·) :=
  ⟨List.lt_trans⟩

instance {α : Type} [LT α] [Std.Trichotomous (· < · : α → α → Prop)] :
    Std.Trichotomous (· < · : List α → List α → Prop) :=
  ⟨fun _ _ h g => List.le_antisymm (List.not_lt.mp g) (List.not_lt.mp h)⟩

end Text

end Phrasebook
