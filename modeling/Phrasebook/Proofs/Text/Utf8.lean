import Mathlib.Data.List.TakeWhile
import Mathlib.Tactic.SplitIfs
import Phrasebook.Text.Utf8

/-! # Texts in bytes

A text that can be stored as UTF-8 is read back from its bytes (`Utf8.decode_encode`): each code
point is, whatever bytes follow (`Utf8.decodeFrom_encodePoint`). Bytes that are read as a text are
the bytes of this text alone (`Utf8.encode_decode`), since the machine takes exactly the bytes of
the code point it gives (`Utf8.exists_encodePoint`). A text without carriage returns stays as it is
when its line breaks are unified (`Text.unifyLineBreaks_eq_self`). -/

namespace Phrasebook

namespace Utf8

/-! ### Bytes -/

theorem toNat_ofNat {n : Nat} (h : n < 0x100) : (UInt8.ofNat n).toNat = n :=
  UInt8.toNat_ofNat_of_lt' h

theorem toNat_continuation (n shift : Nat) :
    (continuation n shift).toNat = 0x80 + n / Nat.pow 2 shift % 0x40 :=
  toNat_ofNat (by omega)

/-! What the first of several bytes begins. The next byte fits unless the code point is a surrogate or
has fewer bytes. -/

theorem begin?_two {v : Nat} (hlow : 0x80 ≤ v) (hhigh : v < 0x800) :
    begin? (0xC0 + v / 0x40) = some ⟨0xC0 + v / 0x40, 1, 0, 0x80, 0xBF, v / 0x40⟩ := by
  unfold begin?
  rw [if_pos (by omega), Nat.add_sub_cancel_left]

theorem begin?_three {v : Nat} (hlow : 0x800 ≤ v) (hhigh : v < 0x10000)
    (hsurrogate : v < 0xD800 ∨ 0xDFFF < v) :
    ∃ low high, begin? (0xE0 + v / 0x1000) =
        some ⟨0xE0 + v / 0x1000, 1, 1, low, high, v / 0x1000⟩ ∧
      low ≤ 0x80 + v / 0x40 % 0x40 ∧ 0x80 + v / 0x40 % 0x40 ≤ high := by
  unfold begin?
  rw [if_neg (by omega)]
  split_ifs with hfirst hlast
  · exact ⟨0xA0, 0xBF, by rw [show v / 0x1000 = 0 by omega], by omega, by omega⟩
  · exact ⟨0x80, 0x9F, by rw [show v / 0x1000 = 0xD by omega], by omega, by omega⟩
  · exact ⟨0x80, 0xBF, by rw [Nat.add_sub_cancel_left], by omega, by omega⟩
  all_goals omega

theorem begin?_four {v : Nat} (hlow : 0x10000 ≤ v) (hhigh : v < 0x110000) :
    ∃ low high, begin? (0xF0 + v / 0x40000) =
        some ⟨0xF0 + v / 0x40000, 1, 2, low, high, v / 0x40000⟩ ∧
      low ≤ 0x80 + v / 0x1000 % 0x40 ∧ 0x80 + v / 0x1000 % 0x40 ≤ high := by
  unfold begin?
  rw [if_neg (by omega), if_neg (by omega), if_neg (by omega), if_neg (by omega)]
  split_ifs with hfirst hmiddle
  · exact ⟨0x90, 0xBF, by rw [show v / 0x40000 = 0 by omega], by omega, by omega⟩
  · exact ⟨0x80, 0xBF, by rw [Nat.add_sub_cancel_left], by omega, by omega⟩
  · exact ⟨0x80, 0x8F, by rw [show v / 0x40000 = 4 by omega], by omega, by omega⟩
  all_goals omega

/-! ### Decoding byte by byte -/

section Decode
variable {position : Nat} {u : Unfinished} {byte : UInt8} {rest : Bytes} {v : Nat}

theorem decodeFrom_ascii (h : byte.toNat < 0x80) : decodeFrom position none (byte :: rest) =
    (decodeFrom (position + 1) none rest).map (CodePoint.ofNat byte.toNat :: ·) := by
  rw [decodeFrom, if_pos h]

theorem decodeFrom_begin (hbyte : 0x80 ≤ byte.toNat) (h : begin? byte.toNat = some u) :
    decodeFrom position none (byte :: rest) = decodeFrom (position + 1) (some u) rest := by
  rw [decodeFrom, if_neg (by omega), h]

/-- A byte that continues a character, of which more bytes are owed. -/
theorem decodeFrom_continue {owed n : Nat} (howed : u.owed = owed + 1)
    (hlow : u.low ≤ byte.toNat) (hhigh : byte.toNat ≤ u.high)
    (hbits : u.bits * 0x40 + (byte.toNat - 0x80) = n) :
    decodeFrom position (some u) (byte :: rest) =
      decodeFrom (position + 1) (some ⟨u.lead, u.read + 1, owed, 0x80, 0xBF, n⟩) rest := by
  rw [decodeFrom, if_pos ⟨hlow, hhigh⟩]
  simp only [howed, hbits]

/-- The last byte of a character. -/
theorem decodeFrom_last (howed : u.owed = 0) (hlow : u.low ≤ byte.toNat)
    (hhigh : byte.toNat ≤ u.high) (hbits : u.bits * 0x40 + (byte.toNat - 0x80) = v) :
    decodeFrom position (some u) (byte :: rest) =
      (decodeFrom (position + 1) none rest).map (CodePoint.ofNat v :: ·) := by
  rw [decodeFrom, if_pos ⟨hlow, hhigh⟩]
  simp only [howed, hbits]

end Decode

/-- **A code point is read back from its bytes**, unless it is a surrogate. -/
theorem decodeFrom_encodePoint {c : CodePoint} (hc : c.isSurrogate = false) (position : Nat)
    (rest : Bytes) : decodeFrom position none (encodePoint c ++ rest) =
      (decodeFrom (position + (encodePoint c).length) none rest).map (c :: ·) := by
  have hlt : c.val < 0x110000 := c.val_lt
  have hsurrogate : c.val < 0xD800 ∨ 0xDFFF < c.val := by
    simp only [CodePoint.isSurrogate, CodePoint.within, Bool.and_eq_false_iff,
      decide_eq_false_iff_not] at hc
    omega
  have hself : CodePoint.ofNat c.val = c := by rw [CodePoint.ofNat, dif_pos c.val_lt]
  have h0 : (continuation c.val 0).toNat = 0x80 + c.val % 0x40 :=
    (toNat_continuation c.val 0).trans (by rw [show Nat.pow 2 0 = 1 from rfl, Nat.div_one])
  have h6 : (continuation c.val 6).toNat = 0x80 + c.val / 0x40 % 0x40 :=
    toNat_continuation c.val 6
  have h12 : (continuation c.val 12).toNat = 0x80 + c.val / 0x1000 % 0x40 :=
    toNat_continuation c.val 12
  unfold encodePoint
  split_ifs with hone htwo hthree
  · have hbyte : (UInt8.ofNat c.val).toNat = c.val := toNat_ofNat (by omega)
    rw [List.singleton_append, decodeFrom_ascii (by omega), hbyte, hself]
    rfl
  · have hbyte : (UInt8.ofNat (0xC0 + c.val / 0x40)).toNat = 0xC0 + c.val / 0x40 :=
      toNat_ofNat (by omega)
    have hbegin := begin?_two (v := c.val) (by omega) (by omega)
    rw [List.cons_append, List.singleton_append, decodeFrom_begin (by omega) (hbyte ▸ hbegin),
      decodeFrom_last (v := c.val) rfl (by simp only; omega) (by simp only; omega)
        (by simp only; omega), hself]
    rfl
  · have hbyte : (UInt8.ofNat (0xE0 + c.val / 0x1000)).toNat = 0xE0 + c.val / 0x1000 :=
      toNat_ofNat (by omega)
    obtain ⟨low, high, hbegin, hlow, hhigh⟩ := begin?_three (v := c.val) (by omega) hthree hsurrogate
    rw [List.cons_append, List.cons_append, List.singleton_append,
      decodeFrom_begin (by omega) (hbyte ▸ hbegin),
      decodeFrom_continue (n := c.val / 0x40) rfl (by simp only; omega) (by simp only; omega)
        (by simp only; omega),
      decodeFrom_last (v := c.val) rfl (by simp only; omega) (by simp only; omega)
        (by simp only; omega), hself]
    rfl
  · have hbyte : (UInt8.ofNat (0xF0 + c.val / 0x40000)).toNat = 0xF0 + c.val / 0x40000 :=
      toNat_ofNat (by omega)
    obtain ⟨low, high, hbegin, hlow, hhigh⟩ := begin?_four (v := c.val) (by omega) hlt
    rw [List.cons_append, List.cons_append, List.cons_append, List.singleton_append,
      decodeFrom_begin (by omega) (hbyte ▸ hbegin),
      decodeFrom_continue (n := c.val / 0x1000) rfl (by simp only; omega) (by simp only; omega)
        (by simp only; omega),
      decodeFrom_continue (n := c.val / 0x40) rfl (by simp only; omega) (by simp only; omega)
        (by simp only; omega),
      decodeFrom_last (v := c.val) rfl (by simp only; omega) (by simp only; omega)
        (by simp only; omega), hself]
    rfl

theorem decodeFrom_flatMap (position : Nat) {t : Text} (h : ∀ c ∈ t, c.isSurrogate = false) :
    decodeFrom position none (t.flatMap encodePoint) = .ok t := by
  induction t generalizing position with
  | nil => rfl
  | cons c rest ih =>
    obtain ⟨hc, hrest⟩ := List.forall_mem_cons.mp h
    rw [List.flatMap_cons, decodeFrom_encodePoint hc, ih _ hrest]
    rfl

/-- **A text that can be stored is read back from its bytes.** -/
theorem decode_encode {t : Text} {bytes : Bytes} (h : encode t = .ok bytes) :
    decode bytes = .ok t := by
  unfold encode at h
  split at h
  next hnone =>
    cases h
    exact decodeFrom_flatMap 0 fun c hc => by simpa using List.dropWhile_eq_nil_iff.mp hnone c hc
  next => cases h

/-! ### What was read -/

/-- What a byte begins: a character of two, three or four bytes, by the range of the byte. The range
of the next byte leaves out the overlong spellings, the surrogates and what is beyond the last code
point. -/
theorem begin?_eq_some {b : Nat} {u : Unfinished} (h : begin? b = some u) :
    (0xC2 ≤ b ∧ b ≤ 0xDF ∧ u = ⟨b, 1, 0, 0x80, 0xBF, b - 0xC0⟩) ∨
      (∃ low high, 0xE0 ≤ b ∧ b ≤ 0xEF ∧ u = ⟨b, 1, 1, low, high, b - 0xE0⟩ ∧ 0x80 ≤ low ∧
        high ≤ 0xBF ∧ (b = 0xE0 → 0xA0 ≤ low) ∧ (b = 0xED → high ≤ 0x9F)) ∨
      ∃ low high, 0xF0 ≤ b ∧ b ≤ 0xF4 ∧ u = ⟨b, 1, 2, low, high, b - 0xF0⟩ ∧ 0x80 ≤ low ∧
        high ≤ 0xBF ∧ (b = 0xF0 → 0x90 ≤ low) ∧ (b = 0xF4 → high ≤ 0x8F) := by
  unfold begin? at h
  split_ifs at h with htwo he0 hed hthree hf0 hfour hf4 <;> cases h
  · exact .inl ⟨htwo.1, htwo.2, rfl⟩
  · exact .inr (.inl ⟨_, _, by omega, by omega, by subst he0; rfl, by omega, by omega, by omega,
      by omega⟩)
  · exact .inr (.inl ⟨_, _, by omega, by omega, by subst hed; rfl, by omega, by omega, by omega,
      by omega⟩)
  · exact .inr (.inl ⟨_, _, by omega, by omega, rfl, by omega, by omega, by omega, by omega⟩)
  · exact .inr (.inr ⟨_, _, by omega, by omega, by subst hf0; rfl, by omega, by omega, by omega,
      by omega⟩)
  · exact .inr (.inr ⟨_, _, by omega, by omega, rfl, by omega, by omega, by omega, by omega⟩)
  · exact .inr (.inr ⟨_, _, by omega, by omega, by subst hf4; rfl, by omega, by omega, by omega,
      by omega⟩)

/-- A byte with a known number. -/
theorem ofNat_eq {n : Nat} {b : UInt8} (h : n = b.toNat) : UInt8.ofNat n = b := by
  rw [h]
  exact UInt8.ofNat_toNat

theorem continuation_eq {n shift : Nat} {b : UInt8}
    (h : 0x80 + n / Nat.pow 2 shift % 0x40 = b.toNat) : continuation n shift = b := ofNat_eq h

/-! The bytes of a code point that was put together from bytes. -/

section Encode
variable {c : CodePoint} {b b₁ b₂ b₃ : UInt8} {bits : Nat}

theorem encodePoint_two (hc : c.val = (b.toNat - 0xC0) * 0x40 + (b₁.toNat - 0x80))
    (hlow : 0xC2 ≤ b.toNat) (hhigh : b.toNat ≤ 0xDF) (hlow₁ : 0x80 ≤ b₁.toNat)
    (hhigh₁ : b₁.toNat ≤ 0xBF) : encodePoint c = [b, b₁] := by
  have hlast : continuation c.val 0 = b₁ :=
    continuation_eq (by rw [show Nat.pow 2 0 = 1 from rfl]; omega)
  unfold encodePoint
  rw [if_neg (by omega), if_pos (by omega), ofNat_eq (b := b) (by omega), hlast]

theorem encodePoint_three (hc : c.val = bits * 0x40 + (b₂.toNat - 0x80))
    (hbits : bits = (b.toNat - 0xE0) * 0x40 + (b₁.toNat - 0x80))
    (hlow : 0xE0 ≤ b.toNat) (hhigh : b.toNat ≤ 0xEF) (hlow₁ : 0x80 ≤ b₁.toNat)
    (hhigh₁ : b₁.toNat ≤ 0xBF) (hshort : 0x800 ≤ c.val) (hlow₂ : 0x80 ≤ b₂.toNat)
    (hhigh₂ : b₂.toNat ≤ 0xBF) : encodePoint c = [b, b₁, b₂] := by
  have hmiddle : continuation c.val 6 = b₁ :=
    continuation_eq (by rw [show Nat.pow 2 6 = 0x40 from rfl]; omega)
  have hlast : continuation c.val 0 = b₂ :=
    continuation_eq (by rw [show Nat.pow 2 0 = 1 from rfl]; omega)
  unfold encodePoint
  rw [if_neg (by omega), if_neg (by omega), if_pos (by omega), ofNat_eq (b := b) (by omega),
    hmiddle, hlast]

theorem encodePoint_four {bits' : Nat} (hc : c.val = bits' * 0x40 + (b₃.toNat - 0x80))
    (hbits' : bits' = bits * 0x40 + (b₂.toNat - 0x80))
    (hbits : bits = (b.toNat - 0xF0) * 0x40 + (b₁.toNat - 0x80))
    (hlow : 0xF0 ≤ b.toNat) (hlow₁ : 0x80 ≤ b₁.toNat) (hhigh₁ : b₁.toNat ≤ 0xBF)
    (hshort : 0x10000 ≤ c.val) (hlow₂ : 0x80 ≤ b₂.toNat) (hhigh₂ : b₂.toNat ≤ 0xBF)
    (hlow₃ : 0x80 ≤ b₃.toNat) (hhigh₃ : b₃.toNat ≤ 0xBF) :
    encodePoint c = [b, b₁, b₂, b₃] := by
  have hsecond : continuation c.val 12 = b₁ :=
    continuation_eq (by rw [show Nat.pow 2 12 = 0x1000 from rfl]; omega)
  have hthird : continuation c.val 6 = b₂ :=
    continuation_eq (by rw [show Nat.pow 2 6 = 0x40 from rfl]; omega)
  have hlast : continuation c.val 0 = b₃ :=
    continuation_eq (by rw [show Nat.pow 2 0 = 1 from rfl]; omega)
  unfold encodePoint
  rw [if_neg (by omega), if_neg (by omega), if_neg (by omega), ofNat_eq (b := b) (by omega),
    hsecond, hthird, hlast]

end Encode

theorem val_ofNat {n : Nat} (h : n < 0x110000) : (CodePoint.ofNat n).val = n := by
  rw [CodePoint.ofNat, dif_pos h]

theorem isSurrogate_eq_false {c : CodePoint} (h : c.val < 0xD800 ∨ 0xDFFF < c.val) :
    c.isSurrogate = false := by
  simp only [CodePoint.isSurrogate, CodePoint.within, Bool.and_eq_false_iff,
    decide_eq_false_iff_not]
  omega

section Read
variable {position lead read owed low high bits : Nat} {byte : UInt8} {bytes rest : Bytes}
  {t : Text}

theorem exists_of_map_cons {x : Except MalformedBytes Text} {c : CodePoint}
    (h : x.map (c :: ·) = .ok t) : ∃ t', x = .ok t' ∧ t = c :: t' := by
  cases x with
  | error fault => cases h
  | ok t' =>
    cases h
    exact ⟨t', rfl, rfl⟩

theorem decodeFrom_some_last
    (h : decodeFrom position (some ⟨lead, read, 0, low, high, bits⟩) bytes = .ok t) :
    ∃ b rest t', bytes = b :: rest ∧ low ≤ b.toNat ∧ b.toNat ≤ high ∧
      decodeFrom (position + 1) none rest = .ok t' ∧
        t = CodePoint.ofNat (bits * 0x40 + (b.toNat - 0x80)) :: t' := by
  cases bytes with
  | nil => cases h
  | cons b rest =>
    by_cases hb : low ≤ b.toNat ∧ b.toNat ≤ high
    · rw [decodeFrom_last rfl hb.1 hb.2 rfl] at h
      obtain ⟨t', ht', rfl⟩ := exists_of_map_cons h
      exact ⟨b, rest, t', rfl, hb.1, hb.2, ht', rfl⟩
    · rw [decodeFrom, if_neg hb] at h
      cases h

theorem decodeFrom_some_continue
    (h : decodeFrom position (some ⟨lead, read, owed + 1, low, high, bits⟩) bytes = .ok t) :
    ∃ b rest, bytes = b :: rest ∧ low ≤ b.toNat ∧ b.toNat ≤ high ∧
      decodeFrom (position + 1) (some ⟨lead, read + 1, owed, 0x80, 0xBF,
        bits * 0x40 + (b.toNat - 0x80)⟩) rest = .ok t := by
  cases bytes with
  | nil => cases h
  | cons b rest =>
    by_cases hb : low ≤ b.toNat ∧ b.toNat ≤ high
    · rw [decodeFrom_continue rfl hb.1 hb.2 rfl] at h
      exact ⟨b, rest, rfl, hb.1, hb.2, h⟩
    · rw [decodeFrom, if_neg hb] at h
      cases h

/-- **A code point that is read takes its own bytes**, and is no surrogate. -/
theorem exists_encodePoint (h : decodeFrom position none (byte :: rest) = .ok t) :
    ∃ c t' position' rest', t = c :: t' ∧ decodeFrom position' none rest' = .ok t' ∧
      c.isSurrogate = false ∧ byte :: rest = encodePoint c ++ rest' := by
  by_cases hascii : byte.toNat < 0x80
  · rw [decodeFrom_ascii hascii] at h
    obtain ⟨t', ht', rfl⟩ := exists_of_map_cons h
    have hval : (CodePoint.ofNat byte.toNat).val = byte.toNat := val_ofNat (by omega)
    refine ⟨_, t', _, rest, rfl, ht', isSurrogate_eq_false (by omega), ?_⟩
    rw [encodePoint, if_pos (by omega), hval, UInt8.ofNat_toNat]
    rfl
  cases hbegin : begin? byte.toNat with
  | none =>
    rw [decodeFrom, if_neg hascii] at h
    simp only [hbegin] at h
    cases h
  | some u =>
    rw [decodeFrom_begin (by omega) hbegin] at h
    rcases begin?_eq_some hbegin with ⟨hlow, hhigh, rfl⟩ | ⟨low, high, hlow, hhigh, rfl, h₁⟩ |
      ⟨low, high, hlow, hhigh, rfl, h₁⟩
    · obtain ⟨b₁, rest₁, t', rfl, hlow₁, hhigh₁, ht', rfl⟩ := decodeFrom_some_last h
      have hval := val_ofNat (n := (byte.toNat - 0xC0) * 0x40 + (b₁.toNat - 0x80)) (by omega)
      refine ⟨_, t', _, rest₁, rfl, ht', isSurrogate_eq_false (by omega), ?_⟩
      rw [encodePoint_two hval hlow hhigh hlow₁ hhigh₁]
      rfl
    · obtain ⟨b₁, rest₁, rfl, hlow₁, hhigh₁, h⟩ := decodeFrom_some_continue h
      obtain ⟨b₂, rest₂, t', rfl, hlow₂, hhigh₂, ht', rfl⟩ := decodeFrom_some_last h
      have hval := val_ofNat (n := ((byte.toNat - 0xE0) * 0x40 + (b₁.toNat - 0x80)) * 0x40 +
        (b₂.toNat - 0x80)) (by omega)
      refine ⟨_, t', _, rest₂, rfl, ht', isSurrogate_eq_false (by omega), ?_⟩
      rw [encodePoint_three hval rfl hlow hhigh (by omega) (by omega) (by omega) hlow₂ hhigh₂]
      rfl
    · obtain ⟨b₁, rest₁, rfl, hlow₁, hhigh₁, h⟩ := decodeFrom_some_continue h
      obtain ⟨b₂, rest₂, rfl, hlow₂, hhigh₂, h⟩ := decodeFrom_some_continue h
      obtain ⟨b₃, rest₃, t', rfl, hlow₃, hhigh₃, ht', rfl⟩ := decodeFrom_some_last h
      have hval := val_ofNat (n := (((byte.toNat - 0xF0) * 0x40 + (b₁.toNat - 0x80)) * 0x40 +
        (b₂.toNat - 0x80)) * 0x40 + (b₃.toNat - 0x80)) (by omega)
      refine ⟨_, t', _, rest₃, rfl, ht', isSurrogate_eq_false (by omega), ?_⟩
      rw [encodePoint_four hval rfl rfl hlow (by omega) (by omega) (by omega) hlow₂ hhigh₂ hlow₃
        hhigh₃]
      rfl

theorem decodeFrom_eq_ok (h : decodeFrom position none bytes = .ok t) :
    (∀ c ∈ t, c.isSurrogate = false) ∧ t.flatMap encodePoint = bytes := by
  induction t generalizing position bytes with
  | nil =>
    cases bytes with
    | nil => exact ⟨nofun, rfl⟩
    | cons byte rest =>
      obtain ⟨_, _, _, _, hnil, -⟩ := exists_encodePoint h
      cases hnil
  | cons c t ih =>
    cases bytes with
    | nil => cases h
    | cons byte rest =>
      obtain ⟨_, _, _, rest', hcons, hrest, hc, hbytes⟩ := exists_encodePoint h
      cases hcons
      obtain ⟨hall, hflat⟩ := ih hrest
      rw [hbytes, List.flatMap_cons, hflat]
      exact ⟨List.forall_mem_cons.mpr ⟨hc, hall⟩, rfl⟩

end Read

/-- **Bytes that are read as a text are the bytes of the text.** -/
theorem encode_decode {t : Text} {bytes : Bytes} (h : decode bytes = .ok t) :
    encode t = .ok bytes := by
  obtain ⟨hall, hflat⟩ := decodeFrom_eq_ok h
  have hnone : t.dropWhile (!·.isSurrogate) = [] :=
    List.dropWhile_eq_nil_iff.mpr fun c hc => by simp [hall c hc]
  rw [encode, hnone]
  exact congrArg Except.ok hflat

end Utf8

namespace Text

theorem unifyLineBreaksFrom_eq_self {t : Text} (h : CodePoint.cr ∉ t) :
    unifyLineBreaksFrom false t = t := by
  induction t with
  | nil => rfl
  | cons c rest ih =>
    obtain ⟨hc, hrest⟩ := not_or.mp (List.mem_cons.not.mp h)
    rw [unifyLineBreaksFrom, if_neg (Ne.symm hc), if_neg (by simp), ih hrest]

/-- **A text without carriage returns** keeps its line breaks when they are unified. -/
theorem unifyLineBreaks_eq_self {t : Text} (h : CodePoint.cr ∉ t) : t.unifyLineBreaks = t :=
  unifyLineBreaksFrom_eq_self h

end Text

end Phrasebook
