import Phrasebook.Proofs.Json.Decode
import Phrasebook.Proofs.Json.Grammar

/-! # Whole numbers that are too long

A whole number of more digits than are converted is a token of its own. The decoder gives up at it
in a way of its own where a value may stand and all before it has been accepted (`Overlong`,
`decode_eq_integerTooLong`); everywhere else it is refused like any other token. -/

namespace Phrasebook.Json

variable {α : Type}

/-! ### Where the decoder gives up -/

/-- The decoder gives up at a token that all before it leads to. -/
theorem run_eq_error {s : State α} {placed : List PlacedToken} {fault : DecodeFault} :
    run s placed = .error fault ↔ ∃ before t after s', placed = before ++ t :: after ∧
      run s before = .ok s' ∧ step s' t = .error fault := by
  induction placed generalizing s with
  | nil =>
    refine ⟨nofun, ?_⟩
    rintro ⟨before, t, after, s', h, -⟩
    cases before <;> cases h
  | cons t rest ih =>
    rw [run]
    cases hstep : step s t with
    | error other =>
      constructor
      · intro h
        cases h
        exact ⟨[], t, rest, s, rfl, rfl, hstep⟩
      · rintro ⟨before, u, after, s', h, hbefore, hu⟩
        cases before with
        | nil =>
          cases h
          cases hbefore
          exact hstep.symm.trans hu
        | cons v before =>
          cases h
          rw [run, hstep] at hbefore
          cases hbefore
    | ok next =>
      refine ih.trans ⟨?_, ?_⟩
      · rintro ⟨before, u, after, s', rfl, hbefore, hu⟩
        refine ⟨t :: before, u, after, s', rfl, ?_, hu⟩
        rw [run, hstep]
        exact hbefore
      · rintro ⟨before, u, after, s', h, hbefore, hu⟩
        cases before with
        | nil =>
          cases h
          cases hbefore
          rw [hstep] at hu
          cases hu
        | cons v before =>
          cases h
          rw [run, hstep] at hbefore
          exact ⟨before, u, after, s', rfl, hbefore, hu⟩

theorem beginValue_eq_integerTooLong {stack : List (Frame α)} {t : PlacedToken} {digits : Nat} :
    beginValue stack t = .error (.integerTooLong digits) ↔ t.token = .longInteger digits := by
  unfold beginValue
  cases t.token <;> simp

theorem beginName_ne_integerTooLong {entries : List (DatumKey × Datum α)} {stack : List (Frame α)}
    {t : PlacedToken} {digits : Nat} :
    beginName entries stack t ≠ .error (.integerTooLong digits) := by
  unfold beginName
  cases t.token <;> nofun

/-- A token is refused as a number that is too long just if it is one and a value is awaited. -/
theorem step_eq_integerTooLong {s : State α} {t : PlacedToken} {digits : Nat} :
    step s t = .error (.integerTooLong digits) ↔
      t.token = .longInteger digits ∧ ∃ stack, AwaitsValue s stack := by
  have hno : ∀ {s : State α}, (∀ stack, ¬ AwaitsValue s stack) →
      step s t ≠ .error (.integerTooLong digits) → (step s t = .error (.integerTooLong digits) ↔
        t.token = .longInteger digits ∧ ∃ stack, AwaitsValue s stack) := by
    intro s hs hne
    exact ⟨fun h => absurd h hne, fun ⟨_, stack, h⟩ => absurd h (hs stack)⟩
  have hvalue : ∀ {s : State α} {stack : List (Frame α)}, AwaitsValue s stack →
      (step s t = .error (.integerTooLong digits) ↔
        t.token = .longInteger digits ∧ ∃ stack, AwaitsValue s stack) := by
    intro s stack hs
    rw [and_iff_left ⟨stack, hs⟩]
    by_cases hend : t.token = .endArray
    · cases hs <;> simp [step, beginValue, hend]
    · have hstep : step s t = beginValue stack t := hs.step_eq hend t.offset
      rw [hstep]
      exact beginValue_eq_integerTooLong
  cases s with
  | value stack => exact hvalue (.value stack)
  | firstItem stack => exact hvalue (.firstItem stack)
  | item comma items stack => exact hvalue (.item comma items stack)
  | afterItem items stack =>
    refine hno (by rintro _ ⟨⟩) ?_
    rw [step]
    split_ifs <;> simp
  | firstName stack =>
    refine hno (by rintro _ ⟨⟩) ?_
    rw [step]
    split_ifs
    · simp
    · exact beginName_ne_integerTooLong
  | name comma entries stack =>
    refine hno (by rintro _ ⟨⟩) ?_
    rw [step]
    split_ifs
    · simp
    · exact beginName_ne_integerTooLong
  | colon entries name stack =>
    refine hno (by rintro _ ⟨⟩) ?_
    rw [step]
    split_ifs <;> simp
  | afterMember entries stack =>
    refine hno (by rintro _ ⟨⟩) ?_
    rw [step]
    split_ifs <;> simp
  | done value =>
    refine hno (by rintro _ ⟨⟩) ?_
    rw [step]
    split_ifs <;> simp

/-! ### Numbers in a text -/

/-- **A text begins with a whole number that is too long**: more digits than are converted, and an
optional sign before them. -/
def BeginsLong (digits : Nat) (t : Text) : Prop :=
  Crash.digitLimit < digits ∧ ∃ sign number : Text,
    (sign = [] ∨ sign = [CodePoint.ofChar '-']) ∧ number.length = digits ∧
      (∀ c ∈ number, c.isDigit = true) ∧ sign ++ number <+: t

theorem isDigit_of_mem_wholePart {t : Text} {c : CodePoint} (h : c ∈ wholePart t) :
    c.isDigit = true := by
  unfold wholePart at h
  split_ifs at h with hzero
  · obtain ⟨rest, rfl⟩ := List.head?_eq_some_iff.mp hzero
    obtain rfl := List.mem_singleton.mp h
    decide
  · exact (List.all_eq_true.mp List.all_takeWhile) c h

theorem beginsLong_of_numberLexeme? {t : Text} {digits width : Nat}
    (h : numberLexeme? t = some ⟨.longInteger digits, width⟩) : BeginsLong digits t := by
  obtain ⟨sign, after, rfl, hform, hsign⟩ := exists_minus t
  unfold numberLexeme? at h
  rw [hsign] at h
  simp only [List.drop_left] at h
  split_ifs at h with hnone hwhole hlimit hpositive
  · cases h
    refine ⟨hlimit, sign, wholePart after, hform, rfl, fun c => isDigit_of_mem_wholePart, ?_⟩
    exact (List.prefix_append_right_inj sign).mpr (begins_wholePart after)
  · cases h
  · cases h
  · obtain ⟨_, -, h⟩ := Option.map_eq_some_iff.mp h
    cases h

theorem token_literalLexeme_ne (offset : Nat) (inside : Text) (digits : Nat) :
    (literalLexeme offset inside).token ≠ .longInteger digits := by
  unfold literalLexeme
  split <;> nofun

theorem beginsLong_of_lexeme {offset : Nat} {c : CodePoint} {rest : Text} {digits : Nat}
    (h : (lexeme offset c rest).token = .longInteger digits) : BeginsLong digits (c :: rest) := by
  unfold lexeme at h
  split at h
  next token hmark =>
    unfold punctuation? at hmark
    split_ifs at hmark <;> cases hmark <;> cases h
  next =>
    split_ifs at h with hquote
    · exact absurd h (token_literalLexeme_ne _ _ _)
    · cases hword : wordLexeme? (c :: rest) with
      | some l =>
        obtain ⟨word, hfound, rfl⟩ := Option.map_eq_some_iff.mp hword
        have hwords : ∀ word ∈ words, ∀ digits, word.2 ≠ .longInteger digits := by
          simp [words]
        rw [hword] at h
        exact absurd h (hwords word (List.mem_of_find?_eq_some hfound) digits)
      | none =>
        rw [hword, Option.none_or] at h
        cases hnumber : numberLexeme? (c :: rest) with
        | none =>
          rw [hnumber] at h
          cases h
        | some l =>
          obtain ⟨token, width⟩ := l
          rw [hnumber] at h
          obtain rfl : token = .longInteger digits := h
          exact beginsLong_of_numberLexeme? hnumber

/-- **A number that is too long stands where its token says.** -/
theorem beginsLong_of_mem_tokensFrom {whole t : Text} {start : Nat} (hstart : whole.drop start = t)
    {offset digits : Nat} (h : ⟨offset, .longInteger digits⟩ ∈ tokensFrom start t) :
    BeginsLong digits (whole.drop offset) := by
  induction start, t using tokensFrom.induct with
  | case1 start =>
    rw [tokensFrom] at h
    cases List.mem_singleton.mp h
  | case2 start c rest hblank ih =>
    rw [tokensFrom, if_pos hblank] at h
    refine ih ?_ h
    rw [← List.drop_drop, hstart, List.drop_one, List.tail_cons]
  | case3 start c rest hblank l hlast =>
    rw [tokensFrom, if_neg hblank] at h
    simp only [if_pos (show (lexeme start c rest).token.isLast = true from hlast)] at h
    have htoken := congrArg PlacedToken.token (List.mem_singleton.mp h)
    rw [show l.token = .longInteger digits from htoken.symm] at hlast
    cases hlast
  | case4 start c rest hblank l hlast ih =>
    rw [tokensFrom, if_neg hblank] at h
    simp only [if_neg (show ¬ (lexeme start c rest).token.isLast = true from hlast)] at h
    rcases List.mem_cons.mp h with heq | hmem
    · have htoken : (lexeme start c rest).token = .longInteger digits :=
        (congrArg PlacedToken.token heq).symm
      rw [show offset = start from congrArg PlacedToken.offset heq, hstart]
      exact beginsLong_of_lexeme htoken
    · refine ih ?_ hmem
      rw [← List.drop_drop, hstart]
      cases hwidth : l.width with
      | zero => rfl
      | succ width => simp

/-! ### Texts with a number that is too long -/

/-- **A text comes to a whole number that is too long** where a value may stand, and all before it
is accepted. -/
def Overlong (t : Text) (digits : Nat) : Prop :=
  ∃ (before after : List PlacedToken) (offset : Nat) (s : State Foreign)
    (stack : List (Frame Foreign)),
    tokens t = before ++ ⟨offset, .longInteger digits⟩ :: after ∧
      run (.value []) before = .ok s ∧ AwaitsValue s stack ∧ BeginsLong digits (t.drop offset)

theorem tokens_byteOrderMark (rest : Text) :
    tokens (byteOrderMark :: rest) = [⟨0, .junk⟩] := by
  have hblank : isBlank byteOrderMark = false := by decide
  unfold tokens
  rw [tokensFrom]
  simp only [hblank, Bool.false_eq_true, if_false, lexeme_byteOrderMark, Token.isLast, if_true]

/-- **The decoder gives up at a number that is too long** just if a text comes to one. -/
theorem decode_eq_integerTooLong {t : Text} {digits : Nat} :
    decode (α := Foreign) t = .error (.integerTooLong digits) ↔ Overlong t digits := by
  unfold decode
  split_ifs with hmark
  · refine ⟨nofun, ?_⟩
    rintro ⟨before, after, offset, s, stack, htokens, -⟩
    obtain ⟨rest, rfl⟩ := List.head?_eq_some_iff.mp hmark
    rw [tokens_byteOrderMark] at htokens
    have hmem : (⟨offset, .longInteger digits⟩ : PlacedToken) ∈ [⟨0, .junk⟩] := by
      rw [htokens]
      exact List.mem_append_right _ List.mem_cons_self
    cases List.mem_singleton.mp hmem
  · have hrun : run (α := Foreign) (.value []) (tokens t) = .error (.integerTooLong digits) ↔
        Overlong t digits := by
      rw [run_eq_error]
      constructor
      · rintro ⟨before, ⟨offset, token⟩, after, s, htokens, hbefore, hstep⟩
        obtain ⟨htoken, stack, hs⟩ := step_eq_integerTooLong.mp hstep
        obtain rfl : token = .longInteger digits := htoken
        have hmem : (⟨offset, .longInteger digits⟩ : PlacedToken) ∈ tokensFrom 0 t := by
          rw [show tokensFrom 0 t = _ from htokens]
          exact List.mem_append_right _ List.mem_cons_self
        exact ⟨before, after, offset, s, stack, htokens, hbefore, hs,
          beginsLong_of_mem_tokensFrom rfl hmem⟩
      · rintro ⟨before, after, offset, s, stack, htokens, hbefore, hs, -⟩
        exact ⟨before, _, after, s, htokens, hbefore, step_eq_integerTooLong.mpr ⟨rfl, stack, hs⟩⟩
    rw [← hrun]
    cases run (α := Foreign) (.value []) (tokens t) with
    | error fault =>
      simp only [Except.error.injEq]
    | ok s => cases s <;> simp

theorem numberLexeme?_digits {t : Text} (hdigits : ∀ c ∈ t, c.isDigit = true)
    (hzero : t.head? ≠ some (CodePoint.ofChar '0')) (hlong : Crash.digitLimit < t.length) :
    numberLexeme? t = some ⟨.longInteger t.length, t.length⟩ := by
  have hminus : t.head? ≠ some (CodePoint.ofChar '-') := by
    intro h
    obtain ⟨rest, rfl⟩ := List.head?_eq_some_iff.mp h
    exact absurd (hdigits _ List.mem_cons_self) (by decide)
  have hwhole : wholePart t = t := by
    unfold wholePart
    rw [if_neg hzero]
    exact List.takeWhile_eq_self_iff.mpr hdigits
  have hne : t.isEmpty = false := by
    cases t with
    | nil => cases hlong
    | cons => rfl
  have hfraction : fractionPart [] = [] := rfl
  have hexponent : exponentPart [] = [] := rfl
  unfold numberLexeme?
  simp only [if_neg hminus, List.length_nil, List.drop_zero, hwhole, Nat.zero_add, Nat.add_zero,
    List.drop_length, hfraction, hexponent, hne, hlong, List.nil_append, List.append_nil,
    List.isEmpty_nil, Bool.and_self, Bool.false_eq_true, if_false, if_true]

theorem overlong_digits {t : Text} (hdigits : ∀ c ∈ t, c.isDigit = true)
    (hzero : t.head? ≠ some (CodePoint.ofChar '0')) (hlong : Crash.digitLimit < t.length) :
    Overlong t t.length := by
  have hnumber := numberLexeme?_digits hdigits hzero hlong
  obtain ⟨c, rest, rfl⟩ := List.exists_cons_of_length_pos (Nat.zero_lt_of_lt hlong)
  have hc : c.isDigit = true := hdigits c List.mem_cons_self
  obtain ⟨hmark, hquote, hblank⟩ := plain_of_isDigit (Or.inl hc)
  have hword : wordLexeme? (c :: rest) = none := by
    have hwords : ∀ word ∈ words, word.1.head?.map (·.isDigit) = some false := by decide
    have hnone : ∀ word ∈ words, ¬ Text.startsWith (c :: rest) word.1 = true := by
      intro word hword hstarts
      obtain ⟨d, hd, hplain⟩ := Option.map_eq_some_iff.mp (hwords word hword)
      obtain ⟨letters, hletters⟩ := List.head?_eq_some_iff.mp hd
      have hbegins : word.1 <+: c :: rest := List.isPrefixOf_iff_prefix.mp hstarts
      rw [hletters, List.cons_prefix_cons] at hbegins
      rw [hbegins.1, hc] at hplain
      cases hplain
    unfold wordLexeme?
    rw [List.find?_eq_none.mpr hnone, Option.map_none]
  have hscans : Scans (c :: rest) (.longInteger (rest.length + 1)) [] := by
    refine scans_of_lexeme hblank rfl fun offset => ?_
    unfold lexeme
    rw [List.append_nil, hmark, if_neg hquote, hword, Option.none_or, hnumber]
    rfl
  have htokens := hscans 0
  rw [List.append_nil] at htokens
  exact ⟨[], _, 0, .value [], [], htokens, rfl, .value [], hlong, [], c :: rest, Or.inl rfl, rfl,
    hdigits, List.prefix_refl _⟩

end Phrasebook.Json
