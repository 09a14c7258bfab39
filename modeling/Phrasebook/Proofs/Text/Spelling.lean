import Mathlib.Tactic.SplitIfs
import Phrasebook.Script.Literal

/-! # How literals spell code points

A literal spells each code point of its text on its own: as itself, by a backslash and a letter, or
by a backslash, a `u` and four hexadecimal digits. The code points that would end the literal never
stand for themselves (`spelling_quotedPoint`, `spelling_templatePoint`), also after surrogates have
been spelled by their numbers (`Spelling.spellSurrogates`). -/

namespace Phrasebook.Text

/-- The code point that a letter after a backslash stands for. -/
def escaped? (c : CodePoint) : Option CodePoint :=
  if c = CodePoint.ofChar 'n' then some CodePoint.lf
  else if c = CodePoint.ofChar 'r' then some CodePoint.cr
  else if c = CodePoint.ofChar 't' then some CodePoint.tab
  else if c = CodePoint.ofChar 'b' then some ⟨0x08, by decide⟩
  else if c = CodePoint.ofChar 'f' then some ⟨0x0C, by decide⟩
  else if c = CodePoint.doubleQuote || c = CodePoint.backslash || c = CodePoint.backtick ||
      c = CodePoint.ofChar '$' then some c
  else none

/-- **A text spells a code point** in a literal in which some code points are special. -/
inductive Spelling (special : List CodePoint) (c : CodePoint) : Text → Prop where
  /-- By a backslash and a letter. -/
  | letter {d : CodePoint} (h : escaped? d = some c) : Spelling special c [CodePoint.backslash, d]
  /-- By its number. -/
  | number (h : c.val < 0x10000) : Spelling special c (Numeral.escape c)
  /-- As itself. -/
  | itself (h : c ∉ special) : Spelling special c [c]

/-! ### Surrogates -/

theorem spellSurrogates_append (t u : Text) :
    spellSurrogates (t ++ u) = spellSurrogates t ++ spellSurrogates u := List.flatMap_append

theorem spellSurrogates_flatMap (f : CodePoint → Text) (t : Text) :
    spellSurrogates (t.flatMap f) = t.flatMap fun c => spellSurrogates (f c) := List.flatMap_assoc

theorem spellSurrogates_eq_self {t : Text} (h : ∀ c ∈ t, c.isSurrogate = false) :
    spellSurrogates t = t := by
  induction t with
  | nil => rfl
  | cons c rest ih =>
    obtain ⟨hc, hrest⟩ := List.forall_mem_cons.mp h
    have hrest' := ih hrest
    simp only [spellSurrogates, List.flatMap_cons, hc, Bool.false_eq_true, if_false] at hrest' ⊢
    rw [hrest', List.singleton_append]

theorem spellSurrogates_singleton (c : CodePoint) :
    spellSurrogates [c] = if c.isSurrogate then Numeral.escape c else [c] := by
  simp [spellSurrogates]

theorem isSurrogate_digitChar :
    ∀ d < 16, (CodePoint.ofChar (Nat.digitChar d)).isSurrogate = false := by
  decide

theorem isSurrogate_escape (c : CodePoint) : ∀ d ∈ Numeral.escape c, d.isSurrogate = false := by
  intro d hd
  rcases List.mem_append.mp hd with hd | hd
  · exact (by decide : ∀ d ∈ Text.ofString "\\u", d.isSurrogate = false) d hd
  · simp only [Numeral.hex, List.mem_reverse, List.mem_map] at hd
    obtain ⟨i, -, rfl⟩ := hd
    exact isSurrogate_digitChar _ (Nat.mod_lt _ (by decide))

/-- A surrogate can be spelled by its number. -/
theorem val_lt_of_isSurrogate {c : CodePoint} (h : c.isSurrogate = true) : c.val < 0x10000 := by
  simp only [CodePoint.isSurrogate, CodePoint.within, Bool.and_eq_true, decide_eq_true_eq] at h
  omega

/-! ### The spellings of the two kinds of literals -/

/-- What ends a string literal or may not stand in it. -/
def stringSpecial : List CodePoint :=
  [CodePoint.doubleQuote, CodePoint.backslash, CodePoint.lf, CodePoint.cr]

/-- What ends the text of a template literal or does not stand for itself there. -/
def templateSpecial : List CodePoint :=
  [CodePoint.backtick, CodePoint.backslash, CodePoint.ofChar '$', CodePoint.lf, CodePoint.cr]

theorem spelling_quotedPoint (c : CodePoint) : Spelling stringSpecial c (quotedPoint c) := by
  unfold quotedPoint
  split_ifs with h1 h2 h3 h4 h5 h6 h7 h8
  · subst h1
    exact .letter rfl
  · subst h2
    exact .letter rfl
  · subst h3
    exact .letter rfl
  · subst h4
    exact .letter rfl
  · subst h5
    exact .letter rfl
  · obtain rfl : c = ⟨0x08, by decide⟩ := by cases c; simpa using h6
    exact .letter rfl
  · obtain rfl : c = ⟨0x0C, by decide⟩ := by cases c; simpa using h7
    exact .letter rfl
  · exact .number (by omega)
  · exact .itself (by simp [stringSpecial, h1, h2, h3, h4])

theorem spelling_templatePoint (c : CodePoint) :
    Spelling templateSpecial c (Code.templatePoint c) := by
  unfold Code.templatePoint
  split_ifs with h1 h2 h3 h4 h5 h6
  · subst h1
    exact .letter rfl
  · subst h2
    exact .letter rfl
  · subst h3
    exact .letter rfl
  · subst h4
    exact .letter rfl
  · subst h5
    exact .letter rfl
  · subst h6
    exact .letter rfl
  · exact .itself (by simp [templateSpecial, h1, h2, h4, h5, h6])

/-- A letter that stands for another code point after a backslash is no surrogate. -/
theorem isSurrogate_of_escaped? {c d : CodePoint} (h : escaped? d = some c) :
    d.isSurrogate = false := by
  unfold escaped? at h
  split_ifs at h with h1 h2 h3 h4 h5 h6
  · rw [h1]
    decide
  · rw [h2]
    decide
  · rw [h3]
    decide
  · rw [h4]
    decide
  · rw [h5]
    decide
  · simp only [Bool.or_eq_true, decide_eq_true_eq] at h6
    rcases h6 with ((rfl | rfl) | rfl) | rfl <;> decide

/-- A spelling stays one when its surrogates are spelled by their numbers. -/
theorem Spelling.spellSurrogates {special : List CodePoint} {c : CodePoint} {t : Text}
    (h : Spelling special c t) : Spelling special c (spellSurrogates t) := by
  cases h with
  | @letter d h =>
    have hd := isSurrogate_of_escaped? h
    have hplain : ∀ e ∈ [CodePoint.backslash, d], e.isSurrogate = false := by
      simp only [List.forall_mem_cons, hd]
      decide
    rw [spellSurrogates_eq_self hplain]
    exact .letter h
  | number h =>
    rw [spellSurrogates_eq_self (isSurrogate_escape c)]
    exact .number h
  | itself h =>
    rw [spellSurrogates_singleton]
    split_ifs with hs
    · exact .number (val_lt_of_isSurrogate hs)
    · exact .itself h

/-! ### The literals, code point by code point -/

theorem quoted_eq (t : Text) : t.quoted = [CodePoint.doubleQuote] ++
    t.flatMap (fun c => spellSurrogates (quotedPoint c)) ++ [CodePoint.doubleQuote] := by
  unfold quoted literal
  rw [spellSurrogates_append, spellSurrogates_append, spellSurrogates_flatMap]
  rfl

theorem templateText_eq (t : Text) :
    Code.templateText t = t.flatMap fun c => spellSurrogates (Code.templatePoint c) := by
  unfold Code.templateText
  rw [spellSurrogates_flatMap]

/-! ### Numbers in spellings -/

theorem hexValue?_digitChar :
    ∀ d < 16, Numeral.hexValue? (CodePoint.ofChar (Nat.digitChar d)) = some d := by decide

/-- The four digits by which a code point is spelled. -/
theorem escape_eq (c : CodePoint) : Numeral.escape c =
    CodePoint.backslash :: CodePoint.ofChar 'u' ::
      [c.val / 4096 % 16, c.val / 256 % 16, c.val / 16 % 16, c.val % 16].map
        fun d => CodePoint.ofChar (Nat.digitChar d) := by
  have h : Numeral.hex 4 c.val = [c.val / 4096 % 16, c.val / 256 % 16, c.val / 16 % 16,
      c.val / 1 % 16].map fun d => CodePoint.ofChar (Nat.digitChar d) := rfl
  rw [Nat.div_one] at h
  unfold Numeral.escape
  rw [h]
  rfl

/-- The four digits have the number of the code point as their value. -/
theorem ofNat_value_digits {c : CodePoint} (h : c.val < 0x10000) :
    CodePoint.ofNat (Numeral.value 16
      [c.val / 4096 % 16, c.val / 256 % 16, c.val / 16 % 16, c.val % 16]) = c := by
  have hv : Numeral.value 16 [c.val / 4096 % 16, c.val / 256 % 16, c.val / 16 % 16, c.val % 16] =
      c.val := by
    simp only [Numeral.value, List.foldl_cons, List.foldl_nil]
    omega
  rw [hv, CodePoint.ofNat, dif_pos c.val_lt]

end Phrasebook.Text
