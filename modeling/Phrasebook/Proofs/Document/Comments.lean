import Phrasebook.Proofs.Document.Division
import Phrasebook.Proofs.Json.Grammar
import Phrasebook.Proofs.Script.Render

/-! # Texts without comments

A text in which no comment begins and every string literal ends is left as it is where comments are
blanked out (`Uncommented`). The tokens of JSON are such texts, string literals with slashes and
stars in them included (`uncommented_of_isToken`), and so is what is composed of such texts. -/

namespace Phrasebook.Comments

/-- **A text is left as it is** between comments and string literals, whatever follows it. -/
def Uncommented (t : Text) : Prop :=
  ∀ rest, blankFrom .outside (t ++ rest) = t ++ blankFrom .outside rest

theorem Uncommented.blank_eq {t : Text} (h : Uncommented t) : blank t = t := by
  have hall := h []
  rw [List.append_nil] at hall
  exact hall.trans (List.append_nil t)

theorem uncommented_nil : Uncommented [] := fun _ => rfl

theorem Uncommented.append {t u : Text} (ht : Uncommented t) (hu : Uncommented u) :
    Uncommented (t ++ u) := by
  intro rest
  rw [List.append_assoc, ht, hu, List.append_assoc]

theorem uncommented_join {separator : Text} (hseparator : Uncommented separator) {parts : List Text}
    (h : ∀ t ∈ parts, Uncommented t) : Uncommented (Text.join separator parts) :=
  Text.join_induction uncommented_nil Uncommented.append hseparator h

/-- What opens neither a string literal nor a comment. -/
theorem uncommented_of_forall {t : Text} (h : ∀ c ∈ t, c ≠ CodePoint.doubleQuote ∧ c ≠ slash) :
    Uncommented t := by
  intro rest
  induction t with
  | nil => rfl
  | cons c t ih =>
    obtain ⟨⟨hquote, hslash⟩, ht⟩ := List.forall_mem_cons.mp h
    rw [List.cons_append, blankFrom]
    simp only [if_neg hquote, decide_eq_false hslash, Bool.false_and, Bool.false_eq_true, if_false,
      ih ht, List.cons_append]

/-! ### String literals -/

/-- Neither what ends a string literal nor what escapes a code point in it. -/
theorem blankFrom_inLiteral {c : CodePoint} (hquote : c ≠ CodePoint.doubleQuote)
    (hbackslash : c ≠ CodePoint.backslash) (rest : Text) :
    blankFrom .inLiteral (c :: rest) = c :: blankFrom .inLiteral rest := by
  rw [blankFrom]
  simp only [if_neg hquote, if_neg hbackslash]

theorem blankFrom_escape (d : CodePoint) (rest : Text) :
    blankFrom .inLiteral (CodePoint.backslash :: d :: rest) =
      CodePoint.backslash :: d :: blankFrom .inLiteral rest := rfl

theorem blankFrom_inside {t : Text} (h : Inside t) (rest : Text) :
    blankFrom .inLiteral (t ++ rest) = t ++ blankFrom .inLiteral rest := by
  induction h with
  | nil => rfl
  | point hquote hbackslash _ ih =>
    rw [List.cons_append, blankFrom_inLiteral hquote hbackslash, ih, List.cons_append]
  | escape c _ ih =>
    rw [List.cons_append, List.cons_append, blankFrom_escape, ih]
    rfl

theorem blankFrom_doubleQuote (rest : Text) :
    blankFrom .outside (CodePoint.doubleQuote :: rest) =
      CodePoint.doubleQuote :: blankFrom .inLiteral rest := rfl

/-- **A string literal holds no comment.** -/
theorem uncommented_literal {t : Text} (h : Inside t) :
    Uncommented (CodePoint.doubleQuote :: (t ++ [CodePoint.doubleQuote])) := by
  intro rest
  have hclose : blankFrom .inLiteral (CodePoint.doubleQuote :: rest) =
      CodePoint.doubleQuote :: blankFrom .outside rest := rfl
  rw [List.cons_append, blankFrom_doubleQuote, List.append_assoc, List.singleton_append,
    blankFrom_inside h, hclose, List.cons_append, List.append_assoc, List.singleton_append]

theorem Inside.append {t u : Text} (ht : Inside t) (hu : Inside u) : Inside (t ++ u) := by
  induction ht with
  | nil => exact hu
  | point hquote hbackslash _ ih => exact .point hquote hbackslash ih
  | escape c _ ih => exact .escape c ih

theorem inside_of_forall {t : Text}
    (h : ∀ c ∈ t, c ≠ CodePoint.doubleQuote ∧ c ≠ CodePoint.backslash) : Inside t := by
  induction t with
  | nil => exact .nil
  | cons c t ih =>
    obtain ⟨⟨hquote, hbackslash⟩, ht⟩ := List.forall_mem_cons.mp h
    exact .point hquote hbackslash (ih ht)

theorem inside_of_isLetter {t : Text} (h : Json.IsLetter t) : Inside t := by
  cases h with
  | itself hquote hbackslash => exact .point hquote hbackslash .nil
  | short => exact .escape _ .nil
  | number hlength hdigits =>
    refine .escape _ (inside_of_forall fun d hd => ⟨?_, ?_⟩)
    · rintro rfl
      exact absurd (hdigits _ hd) (by decide)
    · rintro rfl
      exact absurd (hdigits _ hd) (by decide)

theorem inside_flatten {letters : List Text} (h : ∀ letter ∈ letters, Json.IsLetter letter) :
    Inside letters.flatten := by
  induction letters with
  | nil => exact .nil
  | cons letter letters ih =>
    obtain ⟨hletter, hletters⟩ := List.forall_mem_cons.mp h
    exact (inside_of_isLetter hletter).append (ih hletters)

/-! ### Tokens -/

/-- Neither a quotation mark nor a slash stands in a text. -/
def Plain (t : Text) : Prop := ∀ c ∈ t, c ≠ CodePoint.doubleQuote ∧ c ≠ slash

instance (t : Text) : Decidable (Plain t) :=
  inferInstanceAs (Decidable (∀ c ∈ t, c ≠ CodePoint.doubleQuote ∧ c ≠ slash))

theorem plain_append {t u : Text} : Plain (t ++ u) ↔ Plain t ∧ Plain u := List.forall_mem_append

theorem plain_of_isDigits {t : Text} (h : Json.IsDigits t) : Plain t := by
  intro c hc
  have hdigit := h.2 c hc
  constructor
  · rintro rfl
    cases hdigit
  · rintro rfl
    cases hdigit

theorem plain_of_isNumber {t : Text} (h : Json.IsNumber t) : Plain t := by
  obtain ⟨hsign, hwhole, hfraction, hexponent⟩ := h
  refine plain_append.mpr ⟨?_, plain_append.mpr ⟨?_, plain_append.mpr ⟨?_, ?_⟩⟩⟩
  · rcases hsign with rfl | rfl <;> decide
  · rcases hwhole with rfl | ⟨hdigits, -⟩
    · decide
    · exact plain_of_isDigits hdigits
  · rcases hfraction with rfl | ⟨digits, rfl, hdigits⟩
    · exact List.forall_mem_nil _
    · exact List.forall_mem_cons.mpr ⟨by decide, plain_of_isDigits hdigits⟩
  · rcases hexponent with rfl | ⟨mark, sign, digits, rfl, hmark, hsign, hdigits⟩
    · exact List.forall_mem_nil _
    · refine List.forall_mem_cons.mpr ⟨?_, plain_append.mpr ⟨?_, plain_of_isDigits hdigits⟩⟩
      · rcases hmark with rfl | rfl <;> decide
      · rcases hsign with rfl | rfl | rfl <;> decide

/-- **No token holds a comment**, nor what opens one. -/
theorem uncommented_of_isToken {t : Text} (h : Json.IsToken t) : Uncommented t := by
  cases h with
  | mark hmark =>
    have hmarks : Plain Json.marks := by decide
    exact uncommented_of_forall (List.forall_mem_singleton.mpr (hmarks _ hmark))
  | @word t token hword =>
    have hwords : ∀ word ∈ Json.words, Plain word.1 := by decide
    exact uncommented_of_forall (hwords (t, token) hword)
  | number hnumber => exact uncommented_of_forall (plain_of_isNumber hnumber)
  | literal hletters => exact uncommented_literal (inside_flatten hletters)

theorem uncommented_of_isBlank {c : CodePoint} (h : Json.isBlank c = true) : Uncommented [c] := by
  refine uncommented_of_forall (List.forall_mem_singleton.mpr ⟨?_, ?_⟩)
  · rintro rfl
    cases h
  · rintro rfl
    cases h

theorem uncommented_of_spaced {t : Text} (h : Json.Spaced t) : Uncommented t := by
  induction h with
  | nil => exact uncommented_nil
  | blank hc _ ih => exact (uncommented_of_isBlank hc).append ih
  | token ht _ ih => exact (uncommented_of_isToken ht).append ih

/-- **A quoted text holds no comment**, whatever the text is. -/
theorem uncommented_quoted (t : Text) : Uncommented t.quoted :=
  uncommented_of_isToken (Json.isToken_quoted t)

end Phrasebook.Comments
