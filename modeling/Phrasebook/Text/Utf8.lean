import Phrasebook.Text.Numeral

/-! # UTF-8

Texts are stored as UTF-8. Encoding fails on surrogates and names the first run of them; decoding
is a machine that reads one byte at a time and names the bytes of the first character that is not
well formed. -/

namespace Phrasebook

/-- The content of a file. -/
abbrev Bytes := List UInt8

namespace Utf8

/-! ### Encoding -/

/-- The first run of surrogates of a text, which no bytes stand for. -/
structure SurrogateRun where
  /-- The first surrogate of the run. -/
  first : CodePoint
  /-- Its position in the text. -/
  position : Nat
  /-- The number of surrogates in the run. -/
  length : Nat
deriving DecidableEq

/-- What a failed encoding reports. -/
def SurrogateRun.message (run : SurrogateRun) : Text :=
  if run.length ≤ 1 then
    "'utf-8' codec can't encode character '" ++ Numeral.escape run.first ++ "' in position " ++
      Numeral.ofNat run.position ++ ": surrogates not allowed"
  else
    "'utf-8' codec can't encode characters in position " ++ Numeral.ofNat run.position ++ "-" ++
      Numeral.ofNat (run.position + run.length - 1) ++ ": surrogates not allowed"

/-- A continuation byte with the six bits of `n` above bit `shift`. -/
def continuation (n shift : Nat) : UInt8 := UInt8.ofNat (0x80 + n / Nat.pow 2 shift % 0x40)

/-- The bytes of one code point. -/
def encodePoint (c : CodePoint) : Bytes :=
  if c.val < 0x80 then [UInt8.ofNat c.val]
  else if c.val < 0x800 then [UInt8.ofNat (0xC0 + c.val / 0x40), continuation c.val 0]
  else if c.val < 0x10000 then
    [UInt8.ofNat (0xE0 + c.val / 0x1000), continuation c.val 6, continuation c.val 0]
  else
    [UInt8.ofNat (0xF0 + c.val / 0x40000), continuation c.val 12, continuation c.val 6,
      continuation c.val 0]

/-- **The UTF-8 bytes of a text**, or its first run of surrogates. -/
def encode (t : Text) : Except SurrogateRun Bytes :=
  match t.dropWhile (!·.isSurrogate) with
  | [] => .ok (t.flatMap encodePoint)
  | first :: rest =>
    .error ⟨first, (t.takeWhile (!·.isSurrogate)).length,
      1 + (rest.takeWhile (·.isSurrogate)).length⟩

/-! ### Decoding -/

/-- Why a sequence of bytes stands for no character. -/
inductive Reason where
  /-- The byte begins no character. -/
  | invalidStart
  /-- A byte follows that does not continue the character. -/
  | invalidContinuation
  /-- The input ends inside the character. -/
  | unexpectedEnd
deriving DecidableEq

/-- The wording of a reason. -/
def Reason.message : Reason → Text
  | .invalidStart => "invalid start byte"
  | .invalidContinuation => "invalid continuation byte"
  | .unexpectedEnd => "unexpected end of data"

/-- The bytes of the first character that is not well formed. -/
structure MalformedBytes where
  reason : Reason
  /-- The first of the bytes. -/
  lead : Nat
  /-- Its position in the input. -/
  position : Nat
  /-- How many bytes are meant. -/
  length : Nat
deriving DecidableEq

/-- What a failed decoding reports. -/
def MalformedBytes.message (fault : MalformedBytes) : Text :=
  if fault.length ≤ 1 then
    "'utf-8' codec can't decode byte 0x" ++ Numeral.hex 2 fault.lead ++ " in position " ++
      Numeral.ofNat fault.position ++ ": " ++ fault.reason.message
  else
    "'utf-8' codec can't decode bytes in position " ++ Numeral.ofNat fault.position ++ "-" ++
      Numeral.ofNat (fault.position + fault.length - 1) ++ ": " ++ fault.reason.message

/-- A character of which some bytes are read and at least one is owed. -/
structure Unfinished where
  /-- The first byte. -/
  lead : Nat
  /-- The number of bytes read. -/
  read : Nat
  /-- The number of bytes owed after the next one. -/
  owed : Nat
  /-- The least value the next byte may have. -/
  low : Nat
  /-- The greatest value the next byte may have. -/
  high : Nat
  /-- The bits read so far. -/
  bits : Nat

/-- The character a byte begins, if it begins one of several bytes. -/
def begin? (b : Nat) : Option Unfinished :=
  if 0xC2 ≤ b ∧ b ≤ 0xDF then some ⟨b, 1, 0, 0x80, 0xBF, b - 0xC0⟩
  else if b = 0xE0 then some ⟨b, 1, 1, 0xA0, 0xBF, 0⟩
  else if b = 0xED then some ⟨b, 1, 1, 0x80, 0x9F, 0xD⟩
  else if 0xE1 ≤ b ∧ b ≤ 0xEF then some ⟨b, 1, 1, 0x80, 0xBF, b - 0xE0⟩
  else if b = 0xF0 then some ⟨b, 1, 2, 0x90, 0xBF, 0⟩
  else if 0xF1 ≤ b ∧ b ≤ 0xF3 then some ⟨b, 1, 2, 0x80, 0xBF, b - 0xF0⟩
  else if b = 0xF4 then some ⟨b, 1, 2, 0x80, 0x8F, 4⟩
  else none

/-- Decodes the bytes from a position on, inside an unfinished character or between two. -/
def decodeFrom (position : Nat) (inside : Option Unfinished) : Bytes → Except MalformedBytes Text
  | [] =>
    match inside with
    | none => .ok []
    | some u => .error ⟨.unexpectedEnd, u.lead, position - u.read, u.read⟩
  | byte :: rest =>
    match inside with
    | none =>
      if byte.toNat < 0x80 then
        (decodeFrom (position + 1) none rest).map (CodePoint.ofNat byte.toNat :: ·)
      else
        match begin? byte.toNat with
        | some u => decodeFrom (position + 1) (some u) rest
        | none => .error ⟨.invalidStart, byte.toNat, position, 1⟩
    | some u =>
      if u.low ≤ byte.toNat ∧ byte.toNat ≤ u.high then
        let bits := u.bits * 0x40 + (byte.toNat - 0x80)
        match u.owed with
        | 0 => (decodeFrom (position + 1) none rest).map (CodePoint.ofNat bits :: ·)
        | owed + 1 =>
          decodeFrom (position + 1) (some ⟨u.lead, u.read + 1, owed, 0x80, 0xBF, bits⟩) rest
      else .error ⟨.invalidContinuation, u.lead, position - u.read, u.read⟩

/-- **The text of UTF-8 bytes**, or the first bytes that are not well formed. -/
def decode (bytes : Bytes) : Except MalformedBytes Text := decodeFrom 0 none bytes

end Utf8

end Phrasebook
