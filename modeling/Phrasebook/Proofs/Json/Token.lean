import Mathlib.Data.List.Chain
import Mathlib.Tactic.SplitIfs
import Phrasebook.Json.Token
import Phrasebook.Proofs.Text.Spelling

/-! # Tokens of written scalars

What generated script writes for a scalar is read as one token, whatever follows it (`Scans`). A
string literal gives its text back unless two halves of a surrogate pair stand side by side in it and
are spelled by their numbers (`scans_quoted`, `scans_literal`); the digits of a number must end where
the number does (`scans_ofInt`). -/

namespace Phrasebook

/-! ### Surrogate pairs -/

/-- No high surrogate stands right before a low one. -/
def Text.Unpaired (t : Text) : Prop :=
  ∀ high low : CodePoint, [high, low] <:+: t → high.isHighSurrogate = true →
    low.isLowSurrogate = false

theorem Text.unpaired_of_length_le {t : Text} (h : t.length ≤ 1) : Unpaired t := by
  intro high low hin
  have hlength := hin.length_le
  rw [List.length_cons, List.length_singleton] at hlength
  omega

theorem Text.unpaired_cons_cons {c d : CodePoint} {t : Text} : Unpaired (c :: d :: t) ↔
    (c.isHighSurrogate = true → d.isLowSurrogate = false) ∧ Unpaired (d :: t) := by
  constructor
  · intro h
    refine ⟨h c d ⟨[], t, rfl⟩, fun high low hin => h high low ?_⟩
    exact hin.trans (List.suffix_cons c (d :: t)).isInfix
  · rintro ⟨hfirst, hrest⟩ high low hin
    rcases List.infix_cons_iff.mp hin with hbegin | hin
    · obtain ⟨rfl, hsecond⟩ := List.cons_prefix_cons.mp hbegin
      obtain ⟨rfl, -⟩ := List.cons_prefix_cons.mp hsecond
      exact hfirst
    · exact hrest high low hin

instance Text.decidableUnpaired : (t : Text) → Decidable t.Unpaired
  | [] => isTrue (unpaired_of_length_le (Nat.zero_le _))
  | [_] => isTrue (unpaired_of_length_le (Nat.le_refl _))
  | _ :: d :: t =>
    have := decidableUnpaired (d :: t)
    decidable_of_iff' _ unpaired_cons_cons

namespace Json

/-! ### String literals -/

/-- **A text spells a code point** in a string literal. -/
inductive Spells (c : CodePoint) : Text → Prop where
  /-- By a backslash and a letter. -/
  | letter {d : CodePoint} (hd : d ≠ CodePoint.ofChar 'u') (h : shortEscape? d = some c) :
      Spells c [CodePoint.backslash, d]
  /-- By its number. -/
  | number (h : c.val < 0x10000) : Spells c (Numeral.escape c)
  /-- As itself. -/
  | itself (hquote : c ≠ CodePoint.doubleQuote) (hbackslash : c ≠ CodePoint.backslash)
      (h : 0x20 ≤ c.val) : Spells c [c]

/-- The text of a code point in a string literal of generated script. -/
def spelled (c : CodePoint) : Text := Text.spellSurrogates (Text.quotedPoint c)

theorem spells_quotedPoint (c : CodePoint) : Spells c (Text.quotedPoint c) := by
  unfold Text.quotedPoint
  split_ifs with h1 h2 h3 h4 h5 h6 h7 h8
  · subst h1
    exact .letter (by decide) rfl
  · subst h2
    exact .letter (by decide) rfl
  · subst h3
    exact .letter (by decide) rfl
  · subst h4
    exact .letter (by decide) rfl
  · subst h5
    exact .letter (by decide) rfl
  · obtain rfl : c = ⟨0x08, by decide⟩ := by cases c; simpa using h6
    exact .letter (by decide) rfl
  · obtain rfl : c = ⟨0x0C, by decide⟩ := by cases c; simpa using h7
    exact .letter (by decide) rfl
  · exact .number (by omega)
  · exact .itself h1 h2 (by omega)

/-- A letter that stands for a code point after a backslash is no surrogate. -/
theorem isSurrogate_of_shortEscape? {c d : CodePoint} (h : shortEscape? d = some c) :
    d.isSurrogate = false := by
  unfold shortEscape? at h
  split_ifs at h with h1 h2 h3 h4 h5 h6
  · simp only [Bool.or_eq_true, decide_eq_true_eq] at h1
    rcases h1 with (rfl | rfl) | rfl <;> decide
  all_goals
    subst d
    decide

/-- A spelling stays one when its surrogates are spelled by their numbers. -/
theorem Spells.spellSurrogates {c : CodePoint} {t : Text} (h : Spells c t) :
    Spells c (Text.spellSurrogates t) := by
  cases h with
  | @letter d hd h =>
    have hplain : ∀ e ∈ [CodePoint.backslash, d], e.isSurrogate = false := by
      simp only [List.forall_mem_cons, isSurrogate_of_shortEscape? h]
      decide
    rw [Text.spellSurrogates_eq_self hplain]
    exact .letter hd h
  | number h =>
    rw [Text.spellSurrogates_eq_self (Text.isSurrogate_escape c)]
    exact .number h
  | itself hquote hbackslash h =>
    rw [Text.spellSurrogates_singleton]
    split_ifs with hs
    · exact .number (Text.val_lt_of_isSurrogate hs)
    · exact .itself hquote hbackslash h

theorem spells_spelled (c : CodePoint) : Spells c (spelled c) :=
  (spells_quotedPoint c).spellSurrogates

/-- A spelled code point is read, provided the literal goes on after it. Only one that is spelled by
its number is a unit. -/
theorem literalItems_append {c : CodePoint} {t : Text} (h : Spells c t) (offset : Nat) {rest : Text}
    (hrest : rest ≠ []) : ∃ isUnit, (isUnit = true → t = Numeral.escape c) ∧
      literalItems offset (t ++ rest) =
        (literalItems (offset + t.length) rest).map fun (items, width) =>
          (⟨c, isUnit⟩ :: items, width) := by
  cases h with
  | @letter d hd h =>
    refine ⟨false, nofun, ?_⟩
    have hquote : CodePoint.backslash ≠ CodePoint.doubleQuote := by decide
    show literalItems offset (CodePoint.backslash :: d :: rest) = _
    rw [literalItems.eq_def]
    simp only [if_neg hquote, if_true, if_neg hd, h]
    rfl
  | number h =>
    refine ⟨true, fun _ => rfl, ?_⟩
    have hquote : CodePoint.backslash ≠ CodePoint.doubleQuote := by decide
    have hvalue := Text.ofNat_value_digits h
    have hmore : rest.isEmpty = false := by simpa using hrest
    have hdigit : ∀ n, Numeral.hexValue? (CodePoint.ofChar (Nat.digitChar (n % 16))) =
        some (n % 16) := fun n => Text.hexValue?_digitChar _ (Nat.mod_lt _ (by decide))
    have hhex : Numeral.hexToNat? [CodePoint.ofChar (Nat.digitChar (c.val / 4096 % 16)),
        CodePoint.ofChar (Nat.digitChar (c.val / 256 % 16)),
        CodePoint.ofChar (Nat.digitChar (c.val / 16 % 16)),
        CodePoint.ofChar (Nat.digitChar (c.val % 16))] =
          some (Numeral.value 16
            [c.val / 4096 % 16, c.val / 256 % 16, c.val / 16 % 16, c.val % 16]) := by
      simp only [Numeral.hexToNat?, List.mapM_cons, List.mapM_nil, hdigit]
      rfl
    rw [Text.escape_eq]
    simp only [List.map_cons, List.map_nil, List.cons_append, List.nil_append]
    rw [literalItems.eq_def]
    simp only [if_neg hquote, if_true, hhex, hmore, hvalue]
    rfl
  | itself hquote hbackslash h =>
    refine ⟨false, nofun, ?_⟩
    have hcontrol : ¬ c.val < 0x20 := by omega
    show literalItems offset (c :: rest) = _
    rw [literalItems.eq_def]
    simp only [if_neg hquote, if_neg hbackslash, if_neg hcontrol]
    rfl

theorem literalItems_flatMap {f : CodePoint → Text} (hf : ∀ c, Spells c (f c)) (t rest : Text)
    (offset : Nat) : ∃ items : List LiteralItem, items.map (·.point) = t ∧
      (∀ item ∈ items, item.isUnit = true → f item.point = Numeral.escape item.point) ∧
      literalItems offset (t.flatMap f ++ CodePoint.doubleQuote :: rest) =
        .ok (items, offset + (t.flatMap f).length + 1) := by
  induction t generalizing offset with
  | nil =>
    refine ⟨[], rfl, List.forall_mem_nil _, ?_⟩
    show literalItems offset (CodePoint.doubleQuote :: rest) = _
    rw [literalItems.eq_def]
    simp only [if_true]
    rfl
  | cons c t ih =>
    have hne : t.flatMap f ++ CodePoint.doubleQuote :: rest ≠ [] := by simp
    obtain ⟨isUnit, hunit, hfirst⟩ := literalItems_append (hf c) offset hne
    obtain ⟨items, hpoints, hunits, hrest⟩ := ih (offset + (f c).length)
    refine ⟨⟨c, isUnit⟩ :: items, congrArg (c :: ·) hpoints,
      List.forall_mem_cons.mpr ⟨hunit, hunits⟩, ?_⟩
    rw [List.flatMap_cons, List.append_assoc, hfirst, hrest, List.length_append]
    simp only [Except.map, Nat.add_assoc]

/-- Two items that are not read as one code point. -/
def LiteralItem.Apart (first second : LiteralItem) : Prop :=
  (first.isUnit && second.isUnit && first.point.isHighSurrogate &&
    second.point.isLowSurrogate) = false

theorem joinUnits_eq {items : List LiteralItem} (h : items.IsChain LiteralItem.Apart) :
    joinUnits items = items.map (·.point) := by
  induction items with
  | nil => rfl
  | cons first rest ih =>
    cases rest with
    | nil => rfl
    | cons second rest =>
      obtain ⟨hpair, htail⟩ := List.isChain_cons_cons.mp h
      rw [LiteralItem.Apart] at hpair
      rw [joinUnits, hpair, if_neg Bool.false_ne_true, ih htail]
      rfl

theorem isChain_apart_of_unpaired {items : List LiteralItem}
    (h : Text.Unpaired (items.map (·.point))) : items.IsChain LiteralItem.Apart := by
  refine List.isChain_iff_forall_rel_of_append_cons_cons.mpr fun first second before after heq => ?_
  have hin : [first.point, second.point] <:+: items.map (·.point) :=
    ⟨before.map (·.point), after.map (·.point), by simp [heq]⟩
  have hpair := h first.point second.point hin
  unfold LiteralItem.Apart
  by_cases hhigh : first.point.isHighSurrogate = true
  · rw [hpair hhigh, Bool.and_false]
  · rw [Bool.eq_false_iff.mpr hhigh, Bool.and_false, Bool.false_and]

theorem isChain_apart_of_units {items : List LiteralItem}
    (h : ∀ item ∈ items, item.isUnit = true → item.point.isHighSurrogate = false) :
    items.IsChain LiteralItem.Apart := by
  refine List.isChain_iff_forall_rel_of_append_cons_cons.mpr fun first second before after heq => ?_
  have hfirst := h first (heq ▸ List.mem_append_right before List.mem_cons_self)
  unfold LiteralItem.Apart
  by_cases hunit : first.isUnit = true
  · rw [hfirst hunit, Bool.and_false, Bool.false_and]
  · rw [Bool.eq_false_iff.mpr hunit, Bool.false_and, Bool.false_and, Bool.false_and]

/-! ### Tokens -/

/-- **A text is read as a token** that the rest follows. -/
def Scans (t : Text) (token : Token) (rest : Text) : Prop :=
  ∀ offset, tokensFrom offset (t ++ rest) =
    ⟨offset, token⟩ :: tokensFrom (offset + t.length) rest

theorem scans_of_lexeme {c : CodePoint} {t rest : Text} {token : Token} (hc : isBlank c = false)
    (hlast : token.isLast = false)
    (h : ∀ offset, lexeme offset c (t ++ rest) = ⟨token, t.length + 1⟩) :
    Scans (c :: t) token rest := by
  intro offset
  have hwidth : max (t.length + 1) 1 = t.length + 1 := by omega
  rw [List.cons_append, tokensFrom]
  simp only [hc, h, hlast, Bool.false_eq_true, if_false, hwidth, Nat.add_sub_cancel,
    List.drop_left, List.length_cons]

theorem tokensFrom_blank {c : CodePoint} (hc : isBlank c = true) (offset : Nat) (t : Text) :
    tokensFrom offset (c :: t) = tokensFrom (offset + 1) t := by
  rw [tokensFrom, if_pos hc]

theorem scans_punctuation {c : CodePoint} {token : Token} (h : punctuation? c = some token)
    (hc : isBlank c = false) (hlast : token.isLast = false) (rest : Text) :
    Scans [c] token rest := by
  refine scans_of_lexeme hc hlast fun offset => ?_
  unfold lexeme
  rw [h]
  rfl

/-- A literal in which every code point is spelled is read as its text where no two of its items
join. -/
theorem scans_flatMap {f : CodePoint → Text} (hf : ∀ c, Spells c (f c)) {t : Text}
    (h : ∀ items : List LiteralItem, items.map (·.point) = t →
      (∀ item ∈ items, item.isUnit = true → f item.point = Numeral.escape item.point) →
      items.IsChain LiteralItem.Apart) (rest : Text) :
    Scans (CodePoint.doubleQuote :: (t.flatMap f ++ [CodePoint.doubleQuote])) (.text t) rest := by
  refine scans_of_lexeme (by decide) rfl fun offset => ?_
  obtain ⟨items, hpoints, hunits, hitems⟩ := literalItems_flatMap hf t rest 1
  have hjoin : joinUnits items = t := by
    rw [joinUnits_eq (h items hpoints hunits), hpoints]
  have hmark : punctuation? CodePoint.doubleQuote = none := by decide
  have hlength : 1 + (t.flatMap f).length + 1 =
      (t.flatMap f ++ [CodePoint.doubleQuote]).length + 1 := by
    rw [List.length_append, List.length_singleton]
    omega
  unfold lexeme literalLexeme
  rw [hmark, if_pos rfl, List.append_assoc, List.singleton_append, hitems, ← hlength]
  simp only [hjoin]

/-- **A string literal is read as its text.** -/
theorem scans_quoted {t : Text} (h : t.Unpaired) (rest : Text) :
    Scans t.quoted (.text t) rest := by
  have hquoted : t.quoted = CodePoint.doubleQuote ::
      (t.flatMap spelled ++ [CodePoint.doubleQuote]) := Text.quoted_eq t
  rw [hquoted]
  refine scans_flatMap spells_spelled (fun items hpoints _ => ?_) rest
  rw [← hpoints] at h
  exact isChain_apart_of_unpaired h

/-- A surrogate of a literal stands for itself. -/
theorem isHighSurrogate_of_quotedPoint {c : CodePoint}
    (h : Text.quotedPoint c = Numeral.escape c) : c.isHighSurrogate = false := by
  by_contra hhigh
  have hlow : 0xD800 ≤ c.val := by
    simp only [CodePoint.isHighSurrogate, CodePoint.within, Bool.and_eq_true, decide_eq_true_eq,
      Bool.not_eq_false] at hhigh
    exact hhigh.1
  have hne : ∀ d : CodePoint, d.val < 0xD800 → c ≠ d := by
    rintro d hd rfl
    omega
  have hitself : Text.quotedPoint c = [c] := by
    unfold Text.quotedPoint
    rw [if_neg (hne _ (by decide)), if_neg (hne _ (by decide)), if_neg (hne _ (by decide)),
      if_neg (hne _ (by decide)), if_neg (hne _ (by decide)), if_neg (by omega), if_neg (by omega),
      if_neg (by omega)]
  rw [hitself, Text.escape_eq] at h
  exact hne _ (by decide) (List.cons.inj h).1

/-- **A literal whose surrogates stand for themselves is read as its text**, whatever that is: no
halves of surrogate pairs join. -/
theorem scans_literal (t rest : Text) : Scans t.literal (.text t) rest :=
  scans_flatMap spells_quotedPoint
    (fun _ _ hunits => isChain_apart_of_units fun item hitem hunit =>
      isHighSurrogate_of_quotedPoint (hunits item hitem hunit)) rest

/-- A word of the format is read as its token. -/
theorem scans_word {c : CodePoint} {t : Text} {token : Token} {rest : Text}
    (hc : punctuation? c = none ∧ c ≠ CodePoint.doubleQuote ∧ isBlank c = false)
    (hlast : token.isLast = false)
    (h : wordLexeme? (c :: t ++ rest) = some ⟨token, t.length + 1⟩) :
    Scans (c :: t) token rest := by
  obtain ⟨hmark, hquote, hblank⟩ := hc
  refine scans_of_lexeme hblank hlast fun offset => ?_
  rw [List.cons_append] at h
  unfold lexeme
  rw [hmark, if_neg hquote, h]
  rfl

theorem scans_null (rest : Text) : Scans "null" .null rest :=
  scans_word (by decide) rfl rfl

theorem scans_bool (b : Bool) (rest : Text) :
    Scans (if b then "true" else "false") (.bool b) rest := by
  cases b with
  | true => exact scans_word (c := CodePoint.ofChar 't') (by decide) rfl rfl
  | false => exact scans_word (c := CodePoint.ofChar 'f') (by decide) rfl rfl

/-! ### Whole numbers -/

/-- A text with which no number goes on. -/
def EndsNumber (t : Text) : Prop :=
  ∀ c, t.head? = some c → c.isDigit = false ∧
    c ∉ [CodePoint.ofChar '.', CodePoint.ofChar 'e', CodePoint.ofChar 'E']

theorem isDigit_ofChar {c : Char} (h : c.isDigit = true) :
    (CodePoint.ofChar c).isDigit = true := by
  simp only [Char.isDigit, Bool.and_eq_true, decide_eq_true_eq] at h
  simp only [CodePoint.isDigit, CodePoint.within, Bool.and_eq_true, decide_eq_true_eq]
  exact h

theorem isDigit_of_mem_ofNat {n : Nat} {c : CodePoint} (h : c ∈ Numeral.ofNat n) :
    c.isDigit = true := by
  obtain ⟨d, hd, rfl⟩ := List.mem_map.mp h
  exact isDigit_ofChar (Nat.isDigit_of_mem_toDigits (by decide) (by decide) hd)

theorem ofNat_ne_nil (n : Nat) : Numeral.ofNat n ≠ [] :=
  fun h => Nat.toDigits_ne_nil (List.map_eq_nil_iff.mp h)

theorem toNat_ofNat (n : Nat) : Numeral.toNat (Numeral.ofNat n) = n := by
  have hfold : ∀ (digits : List Char) (m : Nat),
      (digits.map fun c => Numeral.digitValue (CodePoint.ofChar c)).foldl
        (fun m d => m * 10 + d) m = Nat.ofDigitChars 10 digits m := by
    intro digits
    induction digits with
    | nil => exact fun m => rfl
    | cons c digits ih =>
      intro m
      rw [List.map_cons, List.foldl_cons, ih, Nat.ofDigitChars_cons, Nat.mul_comm]
      rfl
  have hdigits : (Numeral.ofNat n).map Numeral.digitValue =
      (Nat.toDigits 10 n).map fun c => Numeral.digitValue (CodePoint.ofChar c) :=
    List.map_map
  unfold Numeral.toNat Numeral.value
  rw [hdigits, hfold, Nat.ofDigitChars_ten_toDigits]

/-- The digits of a number other than zero do not begin with a zero. -/
theorem head?_ofNat_ne {n : Nat} (h : 0 < n) :
    (Numeral.ofNat n).head? ≠ some (CodePoint.ofChar '0') := by
  induction n using Nat.strongRecOn with
  | ind n ih =>
    by_cases hn : n < 10
    · have hdigit : ∀ m < 10, 0 < m →
          CodePoint.ofChar (Nat.digitChar m) ≠ CodePoint.ofChar '0' := by decide
      unfold Numeral.ofNat
      rw [Nat.toDigits_of_lt_base hn, List.map_singleton, List.head?_cons]
      exact fun heq => hdigit n hn h (Option.some.inj heq)
    · have hsplit : Numeral.ofNat n =
          Numeral.ofNat (n / 10) ++ [CodePoint.ofChar (Nat.digitChar (n % 10))] := by
        unfold Numeral.ofNat
        rw [Nat.toDigits_of_base_le (by decide) (by omega), List.map_append, List.map_singleton]
      rw [hsplit, List.head?_append_of_ne_nil _ (ofNat_ne_nil _)]
      exact ih (n / 10) (by omega) (by omega)

theorem wholePart_ofNat_append (n : Nat) {rest : Text} (h : EndsNumber rest) :
    wholePart (Numeral.ofNat n ++ rest) = Numeral.ofNat n := by
  unfold wholePart
  by_cases hn : n = 0
  · subst hn
    rfl
  · have hhead : (Numeral.ofNat n ++ rest).head? ≠ some (CodePoint.ofChar '0') := by
      rw [List.head?_append_of_ne_nil _ (ofNat_ne_nil n)]
      exact head?_ofNat_ne (Nat.pos_of_ne_zero hn)
    have hnone : rest.takeWhile (·.isDigit) = [] := by
      cases rest with
      | nil => rfl
      | cons c rest => exact List.takeWhile_cons_of_neg (by simp [(h c rfl).1])
    rw [if_neg hhead, List.takeWhile_append_of_pos fun c hc => isDigit_of_mem_ofNat hc, hnone,
      List.append_nil]

theorem fractionPart_eq_nil {rest : Text} (h : EndsNumber rest) : fractionPart rest = [] := by
  cases rest with
  | nil => rfl
  | cons c rest =>
    have hpoint : c ≠ CodePoint.ofChar '.' := by
      rintro rfl
      exact (h _ rfl).2 (by decide)
    unfold fractionPart
    simp only [decide_eq_false hpoint, Bool.false_and, Bool.false_eq_true, if_false]

theorem exponentPart_eq_nil {rest : Text} (h : EndsNumber rest) : exponentPart rest = [] := by
  cases rest with
  | nil => rfl
  | cons c rest =>
    have hlower : c ≠ CodePoint.ofChar 'e' := by
      rintro rfl
      exact (h _ rfl).2 (by decide)
    have hupper : c ≠ CodePoint.ofChar 'E' := by
      rintro rfl
      exact (h _ rfl).2 (by decide)
    unfold exponentPart
    simp only [decide_eq_false hlower, decide_eq_false hupper, Bool.or_false, Bool.false_and,
      Bool.false_eq_true, if_false]

/-- Digits with an optional sign before them, which nothing goes on with, are a number. -/
theorem numberLexeme?_ofNat {sign : Text} (hsign : sign = [] ∨ sign = [CodePoint.ofChar '-'])
    {n : Nat} (hn : (Nat.toDigits 10 n).length ≤ Crash.digitLimit) {rest : Text}
    (h : EndsNumber rest) : numberLexeme? (sign ++ Numeral.ofNat n ++ rest) =
      some ⟨.number (.int (if sign.isEmpty then n else -n)), (sign ++ Numeral.ofNat n).length⟩ := by
  have hfirst : (Numeral.ofNat n ++ rest).head? ≠ some (CodePoint.ofChar '-') := by
    obtain ⟨c, digits, hdigits⟩ := List.exists_cons_of_ne_nil (ofNat_ne_nil n)
    have hc : c.isDigit = true := isDigit_of_mem_ofNat (by rw [hdigits]; exact List.mem_cons_self)
    rw [hdigits]
    rintro heq
    cases heq
    exact absurd hc (by decide)
  have htake : (if (sign ++ Numeral.ofNat n ++ rest).head? = some (CodePoint.ofChar '-')
      then (sign ++ Numeral.ofNat n ++ rest).take 1 else []) = sign := by
    rcases hsign with rfl | rfl
    · exact if_neg hfirst
    · exact if_pos rfl
  have hdigits : (sign ++ Numeral.ofNat n ++ rest).drop sign.length = Numeral.ofNat n ++ rest := by
    rw [List.append_assoc, List.drop_left]
  have hrest : (sign ++ Numeral.ofNat n ++ rest).drop (sign.length + (Numeral.ofNat n).length) =
      rest := by
    rw [← List.length_append, List.drop_left]
  have hempty : (Numeral.ofNat n).isEmpty = false := by simpa using ofNat_ne_nil n
  have hlength : ¬ Crash.digitLimit < (Numeral.ofNat n).length := by
    rw [Numeral.ofNat, List.length_map]
    omega
  unfold numberLexeme?
  simp only [htake, hdigits, wholePart_ofNat_append n h, hrest, fractionPart_eq_nil h,
    List.length_nil, Nat.add_zero, exponentPart_eq_nil h, hempty, List.isEmpty_nil, Bool.and_self,
    Bool.false_eq_true, if_false, if_true, hlength, toNat_ofNat, List.append_nil]

/-- No word of the format begins with digits or with a sign and digits. -/
theorem wordLexeme?_ofNat {sign : Text} (hsign : sign = [] ∨ sign = [CodePoint.ofChar '-'])
    (n : Nat) (rest : Text) : wordLexeme? (sign ++ Numeral.ofNat n ++ rest) = none := by
  have hwords : ∀ word ∈ words, ∀ i < 2, (word.1[i]?).map (·.isDigit) = some false := by decide
  have hplace : sign.length < 2 := by
    rcases hsign with rfl | rfl <;> decide
  obtain ⟨c, digits, hdigits⟩ := List.exists_cons_of_ne_nil (ofNat_ne_nil n)
  have hc : c.isDigit = true := isDigit_of_mem_ofNat (by rw [hdigits]; exact List.mem_cons_self)
  have hfirst : (sign ++ Numeral.ofNat n ++ rest)[sign.length]? = some c := by
    rw [List.append_assoc, List.getElem?_append_right (Nat.le_refl _), Nat.sub_self, hdigits]
    rfl
  have hnone : ∀ word ∈ words,
      ¬ Text.startsWith (sign ++ Numeral.ofNat n ++ rest) word.1 = true := by
    intro word hword hstarts
    obtain ⟨after, hafter⟩ := List.isPrefixOf_iff_prefix.mp hstarts
    have hplain := hwords word hword _ hplace
    obtain ⟨d, hd, hdigit⟩ := Option.map_eq_some_iff.mp hplain
    have hinside : sign.length < word.1.length := (List.getElem?_eq_some_iff.mp hd).1
    rw [← hafter, List.getElem?_append_left hinside, hd] at hfirst
    rw [Option.some.inj hfirst, hc] at hdigit
    cases hdigit
  unfold wordLexeme?
  rw [List.find?_eq_none.mpr hnone, Option.map_none]

theorem plain_of_isDigit {c : CodePoint} (h : c.isDigit = true ∨ c = CodePoint.ofChar '-') :
    punctuation? c = none ∧ c ≠ CodePoint.doubleQuote ∧ isBlank c = false := by
  rcases h with h | rfl
  · have hne : ∀ d : CodePoint, d.isDigit = false → c ≠ d := by
      rintro d hd rfl
      rw [h] at hd
      cases hd
    unfold punctuation? isBlank
    simp only [hne CodePoint.openBrace (by decide), hne CodePoint.closeBrace (by decide),
      hne (CodePoint.ofChar '[') (by decide), hne (CodePoint.ofChar ']') (by decide),
      hne (CodePoint.ofChar ':') (by decide), hne (CodePoint.ofChar ',') (by decide),
      hne CodePoint.doubleQuote (by decide), hne CodePoint.space (by decide),
      hne CodePoint.tab (by decide), hne CodePoint.lf (by decide), hne CodePoint.cr (by decide),
      if_false, decide_false, Bool.or_self, ne_eq, not_false_eq_true, and_self]
  · decide

/-- The digits of a whole number and the sign before them. -/
theorem ofInt_eq (n : Int) : ∃ sign : Text, (sign = [] ∨ sign = [CodePoint.ofChar '-']) ∧
    Numeral.ofInt n = sign ++ Numeral.ofNat n.natAbs ∧
      (if sign.isEmpty then (n.natAbs : Int) else -n.natAbs) = n := by
  cases n with
  | ofNat m => exact ⟨[], Or.inl rfl, rfl, rfl⟩
  | negSucc m => exact ⟨[CodePoint.ofChar '-'], Or.inr rfl, rfl, rfl⟩

theorem exists_ofInt_eq_cons (n : Int) : ∃ c t, Numeral.ofInt n = c :: t ∧
    (c.isDigit = true ∨ c = CodePoint.ofChar '-') := by
  obtain ⟨digit, digits, hdigits⟩ := List.exists_cons_of_ne_nil (ofNat_ne_nil n.natAbs)
  have hdigit : digit.isDigit = true :=
    isDigit_of_mem_ofNat (by rw [hdigits]; exact List.mem_cons_self)
  obtain ⟨sign, hsign, hn, -⟩ := ofInt_eq n
  rw [hn, hdigits]
  rcases hsign with rfl | rfl
  · exact ⟨digit, digits, rfl, Or.inl hdigit⟩
  · exact ⟨CodePoint.ofChar '-', digit :: digits, rfl, Or.inr rfl⟩

/-- **A whole number is read** where nothing goes on with it. -/
theorem scans_ofInt {n : Int} (hn : (Nat.toDigits 10 n.natAbs).length ≤ Crash.digitLimit)
    {rest : Text} (h : EndsNumber rest) : Scans (Numeral.ofInt n) (.number (.int n)) rest := by
  obtain ⟨c, t, hcons, hc⟩ := exists_ofInt_eq_cons n
  obtain ⟨hmark, hquote, hblank⟩ := plain_of_isDigit hc
  obtain ⟨sign, hsign, htext, hvalue⟩ := ofInt_eq n
  have hword := wordLexeme?_ofNat hsign n.natAbs rest
  have hnumber := numberLexeme?_ofNat hsign hn h
  rw [← htext, hcons, hvalue, List.cons_append, List.length_cons] at hnumber
  rw [← htext, hcons, List.cons_append] at hword
  rw [hcons]
  refine scans_of_lexeme hblank rfl fun offset => ?_
  unfold lexeme
  rw [hmark, if_neg hquote, hword, hnumber]
  rfl

end Json

end Phrasebook
