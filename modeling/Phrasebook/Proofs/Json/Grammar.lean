import Mathlib.Data.List.TakeWhile
import Phrasebook.Json.Decode
import Phrasebook.Proofs.Json.Token

/-! # How tokens are written

The tokens of JSON texts as they are written: punctuation marks, words, numbers, and string literals
(`IsToken`), quoted texts among them (`isToken_quoted`). What the reader takes for a token is
written as one (`begins_lexeme`), so a text that decodes is a sequence of tokens with blanks between
them (`spaced_of_decode`). -/

namespace Phrasebook.Json

/-! ### The grammar -/

/-- The letters that stand for a code point after a backslash. -/
def escapeLetters : Text := "\"\\/bfnrt"

/-- **What stands for one code point** between the quotation marks of a string literal. -/
inductive IsLetter : Text → Prop where
  | itself {c : CodePoint} (hquote : c ≠ CodePoint.doubleQuote)
      (hbackslash : c ≠ CodePoint.backslash) (hcontrol : 0x20 ≤ c.val) : IsLetter [c]
  | short {c : CodePoint} (h : c ∈ escapeLetters) : IsLetter [CodePoint.backslash, c]
  | number {digits : Text} (hlength : digits.length = 4)
      (h : ∀ d ∈ digits, (Numeral.hexValue? d).isSome = true) :
      IsLetter (CodePoint.backslash :: CodePoint.ofChar 'u' :: digits)

/-- Digits, of which there is one at least. -/
def IsDigits (t : Text) : Prop := t ≠ [] ∧ ∀ c ∈ t, c.isDigit = true

/-- The whole part of a number, which begins with a zero only if it is nothing else. -/
def IsWhole (t : Text) : Prop :=
  t = [CodePoint.ofChar '0'] ∨ IsDigits t ∧ t.head? ≠ some (CodePoint.ofChar '0')

/-- The fraction of a number, which may lack it. -/
def IsFraction (t : Text) : Prop :=
  t = [] ∨ ∃ digits, t = CodePoint.ofChar '.' :: digits ∧ IsDigits digits

/-- The exponent of a number, which may lack it. -/
def IsExponent (t : Text) : Prop :=
  t = [] ∨ ∃ mark sign digits, t = mark :: (sign ++ digits) ∧
    (mark = CodePoint.ofChar 'e' ∨ mark = CodePoint.ofChar 'E') ∧
    (sign = [] ∨ sign = [CodePoint.ofChar '+'] ∨ sign = [CodePoint.ofChar '-']) ∧ IsDigits digits

/-- **A number.** -/
inductive IsNumber : Text → Prop where
  | intro {sign whole fraction exponent : Text}
      (hsign : sign = [] ∨ sign = [CodePoint.ofChar '-']) (hwhole : IsWhole whole)
      (hfraction : IsFraction fraction) (hexponent : IsExponent exponent) :
      IsNumber (sign ++ (whole ++ (fraction ++ exponent)))

/-- The punctuation marks. -/
def marks : Text := "\x7b\x7d[]:,"

/-- **A token as it is written.** -/
inductive IsToken : Text → Prop where
  | mark {c : CodePoint} (h : c ∈ marks) : IsToken [c]
  | word {t : Text} {token : Token} (h : (t, token) ∈ words) : IsToken t
  | number {t : Text} (h : IsNumber t) : IsToken t
  | literal {letters : List Text} (h : ∀ letter ∈ letters, IsLetter letter) :
      IsToken (CodePoint.doubleQuote :: (letters.flatten ++ [CodePoint.doubleQuote]))

/-! ### String literals -/

theorem mem_escapeLetters {c d : CodePoint} (h : shortEscape? c = some d) : c ∈ escapeLetters := by
  unfold shortEscape? at h
  split_ifs at h with h1 h2 h3 h4 h5 h6
  · simp only [Bool.or_eq_true, decide_eq_true_eq] at h1
    rcases h1 with (rfl | rfl) | rfl <;> decide
  all_goals
    subst c
    decide

theorem isSome_of_mapM {digits : Text} {values : List Nat}
    (h : digits.mapM Numeral.hexValue? = some values) :
    ∀ d ∈ digits, (Numeral.hexValue? d).isSome = true := by
  induction digits generalizing values with
  | nil => exact List.forall_mem_nil _
  | cons d digits ih =>
    rw [List.mapM_cons] at h
    obtain ⟨value, hvalue, h⟩ := Option.bind_eq_some_iff.mp h
    obtain ⟨others, hothers, -⟩ := Option.bind_eq_some_iff.mp h
    exact List.forall_mem_cons.mpr ⟨Option.isSome_of_mem hvalue, ih hothers⟩

theorem isLetter_of_hexToNat? {digits : Text} {n : Nat} (h : Numeral.hexToNat? digits = some n)
    (hlength : digits.length = 4) :
    IsLetter (CodePoint.backslash :: CodePoint.ofChar 'u' :: digits) := by
  obtain ⟨values, hvalues, -⟩ := Option.map_eq_some_iff.mp h
  exact .number hlength (isSome_of_mapM hvalues)

/-- A code point is spelled as a string literal may hold it. -/
theorem isLetter_of_spells {c : CodePoint} {t : Text} (h : Spells c t) : IsLetter t := by
  cases h with
  | letter _ h => exact .short (mem_escapeLetters h)
  | number =>
    have hdigit : ∀ n, (Numeral.hexValue? (CodePoint.ofChar (Nat.digitChar (n % 16)))).isSome =
        true := fun n => Option.isSome_of_mem (Text.hexValue?_digitChar _ (Nat.mod_lt n (by decide)))
    rw [Text.escape_eq]
    refine .number rfl ?_
    simp only [List.map_cons, List.map_nil, List.forall_mem_cons]
    exact ⟨hdigit _, hdigit _, hdigit _, hdigit _, List.forall_mem_nil _⟩
  | itself hquote hbackslash h => exact .itself hquote hbackslash h

/-- **A quoted text is a token**, whatever the text is. -/
theorem isToken_quoted (t : Text) : IsToken t.quoted := by
  have hletters : ∀ letter ∈ t.map spelled, IsLetter letter :=
    List.forall_mem_map.mpr fun c _ => isLetter_of_spells (spells_spelled c)
  have hquoted : t.quoted = CodePoint.doubleQuote ::
      ((t.map spelled).flatten ++ [CodePoint.doubleQuote]) := by
    rw [Text.quoted_eq, ← List.flatMap_def]
    rfl
  rw [hquoted]
  exact .literal hletters

/-- **A text begins with letters and the quotation mark** that closes a string literal, so many code
points in all. -/
def BeginsLiteral (t : Text) (width : Nat) : Prop :=
  ∃ (letters : List Text) (rest : Text), t = letters.flatten ++ CodePoint.doubleQuote :: rest ∧
    (∀ letter ∈ letters, IsLetter letter) ∧ width = letters.flatten.length + 1

theorem BeginsLiteral.append {letter t : Text} {width : Nat} (hletter : IsLetter letter)
    (h : BeginsLiteral t width) : BeginsLiteral (letter ++ t) (letter.length + width) := by
  obtain ⟨letters, rest, rfl, hletters, rfl⟩ := h
  refine ⟨letter :: letters, rest, ?_, List.forall_mem_cons.mpr ⟨hletter, hletters⟩, ?_⟩
  · rw [List.flatten_cons, List.append_assoc]
  · rw [List.flatten_cons, List.length_append, Nat.add_assoc]

/-- One letter is read, and what follows it at a later offset. -/
theorem beginsLiteral_of_map {letter rest : Text} {item : LiteralItem} {offset width : Nat}
    {items : List LiteralItem} (hletter : IsLetter letter)
    (hrest : ∀ {items width}, literalItems (offset + letter.length) rest = .ok (items, width) →
      ∃ n, BeginsLiteral rest n ∧ width = offset + letter.length + n)
    (h : ((literalItems (offset + letter.length) rest).map fun (items, width) =>
      (item :: items, width)) = .ok (items, width)) :
    ∃ n, BeginsLiteral (letter ++ rest) n ∧ width = offset + n := by
  cases hread : literalItems (offset + letter.length) rest with
  | error fault =>
    rw [hread] at h
    cases h
  | ok read =>
    obtain ⟨n, hn, hwidth⟩ := hrest hread
    rw [hread] at h
    cases h
    exact ⟨_, hn.append hletter, hwidth.trans (Nat.add_assoc _ _ _)⟩

/-- **What is read as the inside of a string literal** is written letter by letter. -/
theorem beginsLiteral_of_literalItems {t : Text} {offset width : Nat} {items : List LiteralItem}
    (h : literalItems offset t = .ok (items, width)) :
    ∃ n, BeginsLiteral t n ∧ width = offset + n := by
  induction offset, t using literalItems.induct generalizing items width with
  | case1 offset => cases h
  | case2 offset rest =>
    rw [literalItems.eq_def] at h
    simp only [if_true] at h
    cases h
    exact ⟨1, ⟨[], rest, rfl, List.forall_mem_nil _, rfl⟩, rfl⟩
  | case3 offset hquote =>
    rw [literalItems.eq_def] at h
    cases h
  | case4 offset d₁ d₂ d₃ d₄ rest n hmore hhex hquote ih =>
    rw [literalItems.eq_def] at h
    simp only [if_neg hquote, if_true, hhex, hmore] at h
    exact beginsLiteral_of_map (isLetter_of_hexToNat? hhex rfl) ih h
  | case5 offset d₁ d₂ d₃ d₄ rest hnone hquote =>
    rw [literalItems.eq_def] at h
    simp only [if_neg hquote, if_true] at h
    cases h
  | case6 offset rest hshort hquote =>
    rw [literalItems.eq_def] at h
    simp only [if_neg hquote, if_true] at h
    cases h
  | case7 offset e rest hu point hpoint hquote ih =>
    rw [literalItems.eq_def] at h
    simp only [if_neg hquote, if_true, if_neg hu, hpoint] at h
    exact beginsLiteral_of_map (.short (mem_escapeLetters hpoint)) ih h
  | case8 offset e rest hu hnone hquote =>
    rw [literalItems.eq_def] at h
    simp only [if_neg hquote, if_true, if_neg hu, hnone] at h
    cases h
  | case9 offset c rest hquote hbackslash hcontrol =>
    rw [literalItems.eq_def] at h
    simp only [if_neg hquote, if_neg hbackslash, if_pos hcontrol] at h
    cases h
  | case10 offset c rest hquote hbackslash hcontrol ih =>
    rw [literalItems.eq_def] at h
    simp only [if_neg hquote, if_neg hbackslash, if_neg hcontrol] at h
    exact beginsLiteral_of_map (.itself hquote hbackslash (Nat.le_of_not_lt hcontrol)) ih h

/-! ### Numbers -/

theorem begins_wholePart (t : Text) : wholePart t <+: t := by
  unfold wholePart
  split_ifs
  · exact List.take_prefix 1 t
  · exact List.takeWhile_prefix _

theorem isDigits_takeWhile {t : Text} (h : t.takeWhile (·.isDigit) ≠ []) :
    IsDigits (t.takeWhile (·.isDigit)) :=
  ⟨h, fun c hc => List.all_eq_true.mp List.all_takeWhile c hc⟩

theorem isWhole_wholePart {t : Text} (h : wholePart t ≠ []) : IsWhole (wholePart t) := by
  unfold wholePart at h ⊢
  split_ifs at h ⊢ with hzero
  · obtain ⟨rest, rfl⟩ := List.head?_eq_some_iff.mp hzero
    exact Or.inl rfl
  · refine Or.inr ⟨isDigits_takeWhile h, fun hhead => hzero ?_⟩
    obtain ⟨rest, hrest⟩ := List.head?_eq_some_iff.mp hhead
    have hbegins := List.takeWhile_prefix (l := t) (·.isDigit)
    rw [hrest] at hbegins
    obtain ⟨after, rfl⟩ := hbegins
    rfl

theorem fractionPart_spec (t : Text) : fractionPart t <+: t ∧ IsFraction (fractionPart t) := by
  cases t with
  | nil => exact ⟨List.prefix_refl _, Or.inl rfl⟩
  | cons c rest =>
    unfold fractionPart
    simp only [Bool.and_eq_true, decide_eq_true_eq, Bool.not_eq_true', List.isEmpty_eq_false_iff]
    split_ifs with h
    · obtain ⟨rfl, hdigits⟩ := h
      refine ⟨?_, Or.inr ⟨_, rfl, isDigits_takeWhile hdigits⟩⟩
      exact (List.prefix_cons_inj _).mpr (List.takeWhile_prefix _)
    · exact ⟨List.nil_prefix, Or.inl rfl⟩

/-- The sign of a number. -/
theorem exists_minus (t : Text) : ∃ sign rest, t = sign ++ rest ∧
    (sign = [] ∨ sign = [CodePoint.ofChar '-']) ∧
      (if t.head? = some (CodePoint.ofChar '-') then t.take 1 else []) = sign := by
  by_cases hminus : t.head? = some (CodePoint.ofChar '-')
  · obtain ⟨rest, rfl⟩ := List.head?_eq_some_iff.mp hminus
    exact ⟨_, rest, rfl, Or.inr rfl, if_pos hminus⟩
  · exact ⟨[], t, rfl, Or.inl rfl, if_neg hminus⟩

/-- The sign of an exponent. -/
theorem exists_sign (t : Text) : ∃ sign rest, t = sign ++ rest ∧
    (sign = [] ∨ sign = [CodePoint.ofChar '+'] ∨ sign = [CodePoint.ofChar '-']) ∧
      t.take (if (Decimal.takeSign t).2.length < t.length then 1 else 0) = sign := by
  cases t with
  | nil => exact ⟨[], [], rfl, Or.inl rfl, rfl⟩
  | cons c t =>
    have hone : t.length < (c :: t).length := Nat.lt_succ_self _
    by_cases hminus : c = CodePoint.ofChar '-'
    · have htake : Decimal.takeSign (c :: t) = (true, t) := if_pos hminus
      refine ⟨[c], t, rfl, Or.inr (Or.inr (by rw [hminus])), ?_⟩
      rw [htake, if_pos hone]
      rfl
    · by_cases hplus : c = CodePoint.ofChar '+'
      · have htake : Decimal.takeSign (c :: t) = (false, t) := (if_neg hminus).trans (if_pos hplus)
        refine ⟨[c], t, rfl, Or.inr (Or.inl (by rw [hplus])), ?_⟩
        rw [htake, if_pos hone]
        rfl
      · have htake : Decimal.takeSign (c :: t) = (false, c :: t) :=
          (if_neg hminus).trans (if_neg hplus)
        refine ⟨[], c :: t, rfl, Or.inl rfl, ?_⟩
        rw [htake, if_neg (lt_irrefl _)]
        rfl

theorem exponentPart_spec (t : Text) : exponentPart t <+: t ∧ IsExponent (exponentPart t) := by
  cases t with
  | nil => exact ⟨List.prefix_refl _, Or.inl rfl⟩
  | cons c rest =>
    obtain ⟨sign, after, hrest, hform, hsign⟩ := exists_sign rest
    have hafter : rest.drop sign.length = after := by rw [hrest, List.drop_left]
    unfold exponentPart
    simp only [hsign, hafter, Bool.and_eq_true, Bool.or_eq_true, decide_eq_true_eq,
      Bool.not_eq_true', List.isEmpty_eq_false_iff]
    split_ifs with h
    · obtain ⟨hmark, hdigits⟩ := h
      refine ⟨?_, Or.inr ⟨c, sign, _, rfl, hmark, hform, isDigits_takeWhile hdigits⟩⟩
      rw [hrest]
      refine (List.prefix_cons_inj _).mpr ((List.prefix_append_right_inj sign).mpr ?_)
      exact List.takeWhile_prefix _
    · exact ⟨List.nil_prefix, Or.inl rfl⟩

/-- **What is read as a number** is written as one. -/
theorem isNumber_of_numberLexeme? {t : Text} {l : Lexeme} (h : numberLexeme? t = some l) :
    ∃ number rest, t = number ++ rest ∧ IsNumber number ∧ l.width = number.length ∧
      l.token.isLast = false := by
  obtain ⟨sign, afterSign, rfl, hform, hsign⟩ := exists_minus t
  unfold numberLexeme? at h
  rw [hsign] at h
  obtain ⟨afterWhole, hwhole⟩ := begins_wholePart afterSign
  obtain ⟨⟨afterFraction, hfraction⟩, hfractionForm⟩ := fractionPart_spec afterWhole
  obtain ⟨⟨afterExponent, hexponent⟩, hexponentForm⟩ := exponentPart_spec afterFraction
  have hdrop : ∀ {part rest t : Text} (before : Text), part ++ rest = t →
      (before ++ t).drop (before.length + part.length) = rest := by
    rintro part rest _ before rfl
    rw [← List.drop_drop, List.drop_left, List.drop_left]
  have hfromWhole := hdrop sign hwhole
  have hfromFraction := hdrop (sign ++ wholePart afterSign) hfraction
  rw [List.append_assoc, hwhole, List.length_append] at hfromFraction
  simp only [List.drop_left, hfromWhole, hfromFraction] at h
  have hnonempty : wholePart afterSign ≠ [] := by
    intro hnil
    rw [if_pos (List.isEmpty_iff.mpr hnil)] at h
    cases h
  have hlexeme : l.width = (sign ++ wholePart afterSign ++ fractionPart afterWhole ++
      exponentPart afterFraction).length ∧ l.token.isLast = false := by
    split_ifs at h
    · cases h
      exact ⟨rfl, rfl⟩
    · cases h
      exact ⟨rfl, rfl⟩
    · cases h
      exact ⟨rfl, rfl⟩
    · obtain ⟨_, -, rfl⟩ := Option.map_eq_some_iff.mp h
      exact ⟨rfl, rfl⟩
  obtain ⟨hwidth, hlast⟩ := hlexeme
  refine ⟨_, afterExponent, ?_,
    .intro hform (isWhole_wholePart hnonempty) hfractionForm hexponentForm, ?_, hlast⟩
  · simp only [List.append_assoc, hexponent, hfraction, hwhole]
  · rw [hwidth]
    simp only [List.append_assoc]

/-! ### Tokens -/

theorem mem_marks {c : CodePoint} {token : Token} (h : punctuation? c = some token) :
    c ∈ marks ∧ token.isLast = false := by
  unfold punctuation? at h
  split_ifs at h
  all_goals
    cases h
    subst c
    decide

theorem IsToken.ne_nil {t : Text} (h : IsToken t) : t ≠ [] := by
  cases h with
  | mark => exact List.cons_ne_nil _ _
  | @word t token h =>
    have hwords : ∀ word ∈ words, word.1 ≠ [] := by decide
    exact hwords (t, token) h
  | number h =>
    obtain ⟨-, hwhole, -, -⟩ := h
    have hne : ∀ {whole}, IsWhole whole → whole ≠ [] := by
      rintro whole (rfl | ⟨⟨hne, -⟩, -⟩)
      · exact List.cons_ne_nil _ _
      · exact hne
    exact List.append_ne_nil_of_right_ne_nil _ (List.append_ne_nil_of_left_ne_nil (hne hwhole) _)
  | literal => exact List.cons_ne_nil _ _

/-- **What stands at the front of a text** is a token as it is written, or reading ends there before
the end of the text. -/
def Begins (t : Text) (l : Lexeme) : Prop :=
  (l.token.isLast = false ∧ ∃ token rest, t = token ++ rest ∧ IsToken token ∧
    l.width = token.length) ∨ l.token.isLast = true ∧ l.token ≠ .finish

theorem begins_literalLexeme (offset : Nat) (rest : Text) :
    Begins (CodePoint.doubleQuote :: rest) (literalLexeme offset rest) := by
  unfold literalLexeme
  split
  next items width hread =>
    obtain ⟨n, ⟨letters, after, rfl, hletters, rfl⟩, rfl⟩ := beginsLiteral_of_literalItems hread
    refine Or.inl ⟨rfl, _, after, ?_, .literal hletters, ?_⟩
    · rw [List.cons_append, List.append_assoc]
      rfl
    · rw [List.length_cons, List.length_append, List.length_singleton, Nat.add_comm]
  next => exact Or.inr ⟨rfl, nofun⟩
  next => exact Or.inr ⟨rfl, nofun⟩

theorem begins_lexeme (offset : Nat) (c : CodePoint) (rest : Text) :
    Begins (c :: rest) (lexeme offset c rest) := by
  unfold lexeme
  split
  next token hmark =>
    obtain ⟨hmem, hlast⟩ := mem_marks hmark
    exact Or.inl ⟨hlast, [c], rest, rfl, .mark hmem, rfl⟩
  next =>
    split_ifs with hquote
    · subst c
      exact begins_literalLexeme offset rest
    · cases hword : wordLexeme? (c :: rest) with
      | some l =>
        obtain ⟨word, hfound, rfl⟩ := Option.map_eq_some_iff.mp hword
        have hbegins : Text.startsWith (c :: rest) word.1 = true := by
          simpa using List.find?_some hfound
        obtain ⟨after, hafter⟩ := List.isPrefixOf_iff_prefix.mp hbegins
        have hmem := List.mem_of_find?_eq_some hfound
        have hlast : ∀ word ∈ words, word.2.isLast = false := by decide
        exact Or.inl ⟨hlast word hmem, word.1, after, hafter.symm, .word hmem, rfl⟩
      | none =>
        cases hnumber : numberLexeme? (c :: rest) with
        | some l =>
          obtain ⟨number, after, hafter, hform, hwidth, hlast⟩ := isNumber_of_numberLexeme? hnumber
          exact Or.inl ⟨hlast, number, after, hafter, .number hform, hwidth⟩
        | none => exact Or.inr ⟨rfl, nofun⟩

/-! ### Texts that decode -/

/-- **Tokens with blanks between them.** -/
inductive Spaced : Text → Prop where
  | nil : Spaced []
  | blank {c : CodePoint} {rest : Text} (hc : isBlank c = true) (h : Spaced rest) :
    Spaced (c :: rest)
  | token {t rest : Text} (ht : IsToken t) (h : Spaced rest) : Spaced (t ++ rest)

/-- A text that is read to its end is a sequence of tokens and blanks. -/
theorem spaced_of_tokensFrom {offset : Nat} {t : Text}
    (h : ∀ placed ∈ tokensFrom offset t, placed.token.isLast = true → placed.token = .finish) :
    Spaced t := by
  induction offset, t using tokensFrom.induct with
  | case1 => exact .nil
  | case2 offset c rest hblank ih =>
    rw [tokensFrom, if_pos hblank] at h
    exact .blank hblank (ih h)
  | case3 offset c rest hblank l hlast =>
    rw [tokensFrom, if_neg hblank] at h
    simp only [if_pos (show (lexeme offset c rest).token.isLast = true from hlast)] at h
    have hfinish := h _ (List.mem_singleton_self _) hlast
    -- No lexeme is the end of a text, and no other last token is among those accepted.
    rcases begins_lexeme offset c rest with ⟨hgoes, -⟩ | ⟨-, hne⟩
    · exact absurd (hlast.symm.trans hgoes) (by decide)
    · exact absurd hfinish hne
  | case4 offset c rest hblank l hlast ih =>
    rw [tokensFrom, if_neg hblank] at h
    simp only [if_neg (show ¬ (lexeme offset c rest).token.isLast = true from hlast)] at h
    rcases begins_lexeme offset c rest with ⟨-, token, after, hafter, htoken, hwidth⟩ | ⟨hends, -⟩
    · cases token with
      | nil => exact absurd rfl htoken.ne_nil
      | cons d token =>
        obtain ⟨rfl, hrest⟩ := List.cons.inj hafter
        have hdrop : rest.drop (l.width - 1) = after := by
          rw [show l.width = _ from hwidth, List.length_cons, Nat.add_sub_cancel,
            show rest = token ++ after from hrest, List.drop_left]
        rw [hafter]
        refine .token htoken ?_
        rw [← hdrop]
        exact ih fun placed hplaced => h placed (List.mem_cons_of_mem _ hplaced)
    · exact absurd hends hlast

section Run
variable {α : Type} {s s' : State α}

/-- The only token that ends reading and is accepted is the end of the text. -/
theorem eq_finish_of_step {t : PlacedToken} (h : step s t = .ok s')
    (hlast : t.token.isLast = true) : t.token = .finish := by
  have hname : ∀ {entries stack}, beginName entries stack t ≠ .ok s' := by
    unfold beginName
    cases ht : t.token <;> rw [ht] at hlast <;> cases hlast <;> nofun
  have hvalue : ∀ {stack}, beginValue stack t ≠ .ok s' := by
    unfold beginValue
    cases ht : t.token <;> rw [ht] at hlast <;> cases hlast <;> nofun
  have hother : ∀ {mark : Token}, mark.isLast = false → t.token ≠ mark := by
    rintro mark hmark rfl
    exact absurd (hlast.symm.trans hmark) (by decide)
  cases s with
  | value => exact absurd h hvalue
  | firstItem | item =>
    rw [step, if_neg (hother rfl)] at h
    exact absurd h hvalue
  | firstName | name =>
    rw [step, if_neg (hother rfl)] at h
    exact absurd h hname
  | afterItem | afterMember =>
    rw [step, if_neg (hother rfl), if_neg (hother rfl)] at h
    cases h
  | colon =>
    rw [step, if_neg (hother rfl)] at h
    cases h
  | done =>
    rw [step] at h
    split_ifs at h with hfinish
    exact hfinish

theorem eq_finish_of_run {placed : List PlacedToken} (h : run s placed = .ok s') :
    ∀ t ∈ placed, t.token.isLast = true → t.token = .finish := by
  induction placed generalizing s with
  | nil => exact List.forall_mem_nil _
  | cons t rest ih =>
    rw [run] at h
    cases hstep : step s t with
    | error fault =>
      rw [hstep] at h
      cases h
    | ok next =>
      rw [hstep] at h
      exact List.forall_mem_cons.mpr ⟨eq_finish_of_step hstep, ih h⟩

end Run

/-- **A text that decodes** is a sequence of tokens with blanks between them. -/
theorem spaced_of_decode {α : Type} {t : Text} {tree : Datum α} (h : decode t = .ok tree) :
    Spaced t := by
  unfold decode at h
  split_ifs at h
  cases hrun : run (α := α) (.value []) (tokens t) with
  | error fault =>
    rw [hrun] at h
    cases h
  | ok s => exact spaced_of_tokensFrom (eq_finish_of_run hrun)

end Phrasebook.Json
