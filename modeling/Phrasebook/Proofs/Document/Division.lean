import Mathlib.Data.List.Infix
import Phrasebook.Document.Comments

/-! # The comments and string literals of a text

A text is divided, from its beginning on, into string literals, comments and the code points that
stand in neither (`Divides`). Quotation marks in a comment begin no literal, what stands in a
literal opens no comment, and either may lack its end where the text ends. Every text is divided in
just one way (`exists_divides`, `Divides.unique`). -/

namespace Phrasebook.Comments

/-! ### String literals -/

/-- **What may stand between the quotation marks of a string literal.** A backslash goes together
with the code point after it, whichever that is. -/
inductive Inside : Text → Prop where
  | nil : Inside []
  | point {c : CodePoint} {t : Text} (hquote : c ≠ CodePoint.doubleQuote)
      (hbackslash : c ≠ CodePoint.backslash) (h : Inside t) : Inside (c :: t)
  | escape (c : CodePoint) {t : Text} (h : Inside t) : Inside (CodePoint.backslash :: c :: t)

/-- **A string literal stands before the rest** of a text; one that is not closed takes it all. -/
inductive IsLiteral : Text → Text → Prop where
  | closed {t : Text} (h : Inside t) (rest : Text) :
      IsLiteral (CodePoint.doubleQuote :: (t ++ [CodePoint.doubleQuote])) rest
  | unclosed {t : Text} (h : Inside t) : IsLiteral (CodePoint.doubleQuote :: t) []
  /-- The text ends after a backslash. -/
  | escaping {t : Text} (h : Inside t) :
      IsLiteral (CodePoint.doubleQuote :: (t ++ [CodePoint.backslash])) []

/-- The inside of a string literal ends here: at a quotation mark, or where the text does. -/
inductive Stops : Text → Prop where
  | quote (rest : Text) : Stops (CodePoint.doubleQuote :: rest)
  | nil : Stops []
  | backslash : Stops [CodePoint.backslash]

theorem Inside.eq_nil_of_stops {t : Text} (h : Inside t) {u : Text} (hu : Stops (t ++ u)) :
    t = [] := by
  generalize hwhole : t ++ u = whole at hu
  cases h with
  | nil => rfl
  | point hquote hbackslash =>
    cases hu with
    | quote => exact absurd (List.cons.inj hwhole).1 hquote
    | nil => cases hwhole
    | backslash => exact absurd (List.cons.inj hwhole).1 hbackslash
  | escape => cases hu <;> cases hwhole

/-- The inside of a string literal has one end. -/
theorem Inside.append_injective {t t' u u' : Text} (ht : Inside t) (ht' : Inside t') (hu : Stops u)
    (hu' : Stops u') (h : t ++ u = t' ++ u') : t = t' ∧ u = u' := by
  have hnil : ∀ {t u u' : Text}, Inside t → Stops u' → t ++ u = u' → t = [] :=
    fun ht hu' heq => ht.eq_nil_of_stops (heq ▸ hu')
  induction ht generalizing t' with
  | nil =>
    obtain rfl := hnil ht' hu h.symm
    exact ⟨rfl, h⟩
  | @point c t hquote hbackslash hinside ih =>
    cases ht' with
    | nil => cases hnil (.point hquote hbackslash hinside) hu' h
    | point _ _ hinside' =>
      obtain ⟨rfl, htail⟩ := List.cons.inj h
      obtain ⟨rfl, hrest⟩ := ih hinside' htail
      exact ⟨rfl, hrest⟩
    | escape => exact absurd (List.cons.inj h).1 hbackslash
  | @escape c t hinside ih =>
    cases ht' with
    | nil => cases hnil (.escape c hinside) hu' h
    | point _ hbackslash' => exact absurd (List.cons.inj h).1.symm hbackslash'
    | escape _ hinside' =>
      obtain ⟨rfl, htail⟩ := List.cons.inj (List.cons.inj h).2
      obtain ⟨rfl, hrest⟩ := ih hinside' htail
      exact ⟨rfl, hrest⟩

theorem IsLiteral.exists_inside {t rest : Text} (h : IsLiteral t rest) :
    ∃ inside ending, t = CodePoint.doubleQuote :: (inside ++ ending) ∧ Inside inside ∧
      Stops (ending ++ rest) ∧ ending = (ending ++ rest).take 1 := by
  cases h with
  | @closed inside hinside rest => exact ⟨inside, _, rfl, hinside, .quote rest, rfl⟩
  | @unclosed inside hinside =>
    exact ⟨inside, [], by rw [List.append_nil], hinside, .nil, rfl⟩
  | @escaping inside hinside => exact ⟨inside, _, rfl, hinside, .backslash, rfl⟩

theorem IsLiteral.unique {t t' rest rest' : Text} (h : IsLiteral t rest) (h' : IsLiteral t' rest')
    (heq : t ++ rest = t' ++ rest') : t = t' ∧ rest = rest' := by
  obtain ⟨inside, ending, rfl, hinside, hstops, hending⟩ := h.exists_inside
  obtain ⟨inside', ending', rfl, hinside', hstops', hending'⟩ := h'.exists_inside
  rw [List.cons_append, List.cons_append, List.append_assoc, List.append_assoc] at heq
  obtain ⟨rfl, hend⟩ := hinside.append_injective hinside' hstops hstops' (List.cons.inj heq).2
  rw [← hend, ← hending] at hending'
  subst hending'
  exact ⟨rfl, List.append_cancel_left hend⟩

/-- After a quotation mark a string literal can always be read. -/
theorem exists_isLiteral (t : Text) : ∃ inside rest, t = inside ++ rest ∧
    IsLiteral (CodePoint.doubleQuote :: inside) rest := by
  have hend : ∀ t, ∃ inside rest, t = inside ++ rest ∧ Inside inside ∧ Stops rest := by
    intro t
    induction t using List.twoStepInduction with
    | nil => exact ⟨[], [], rfl, .nil, .nil⟩
    | singleton c =>
      by_cases hquote : c = CodePoint.doubleQuote
      · exact ⟨[], [c], rfl, .nil, hquote ▸ .quote []⟩
      · by_cases hbackslash : c = CodePoint.backslash
        · exact ⟨[], [c], rfl, .nil, hbackslash ▸ .backslash⟩
        · exact ⟨[c], [], rfl, .point hquote hbackslash .nil, .nil⟩
    | cons_cons c d t ih ih' =>
      by_cases hquote : c = CodePoint.doubleQuote
      · exact ⟨[], c :: d :: t, rfl, .nil, hquote ▸ .quote _⟩
      · by_cases hbackslash : c = CodePoint.backslash
        · obtain ⟨inside, rest, rfl, hinside, hrest⟩ := ih
          exact ⟨c :: d :: inside, rest, rfl, hbackslash ▸ .escape d hinside, hrest⟩
        · obtain ⟨inside, rest, heq, hinside, hrest⟩ := ih' d
          rw [heq]
          exact ⟨c :: inside, rest, rfl, .point hquote hbackslash hinside, hrest⟩
  obtain ⟨inside, rest, rfl, hinside, hrest⟩ := hend t
  cases hrest with
  | quote rest =>
    refine ⟨inside ++ [CodePoint.doubleQuote], rest, ?_, .closed hinside rest⟩
    rw [List.append_assoc, List.singleton_append]
  | nil => exact ⟨inside, [], rfl, .unclosed hinside⟩
  | backslash =>
    exact ⟨inside ++ [CodePoint.backslash], [], (List.append_nil _).symm, .escaping hinside⟩

/-! ### Comments -/

/-- What opens a comment that ends with its line. -/
def lineOpening : Text := [slash, slash]

/-- What opens a block comment. -/
def blockOpening : Text := [slash, star]

/-- What closes a block comment. -/
def blockClosing : Text := [star, slash]

/-- **A comment stands before the rest** of a text. A line break is no part of the comment that it
ends; a block comment goes on to the first closing after its opening, or takes all of the text. -/
inductive IsComment : Text → Text → Prop where
  | line {body rest : Text} (hbody : ∀ c ∈ body, isLineBreak c = false)
      (hrest : ∀ c, rest.head? = some c → isLineBreak c = true) :
      IsComment (lineOpening ++ body) rest
  | block {body : Text} (hbody : ¬ blockClosing <:+: body) (rest : Text) :
      IsComment (blockOpening ++ (body ++ blockClosing)) rest
  | unclosed {body : Text} (hbody : ¬ blockClosing <:+: body) :
      IsComment (blockOpening ++ body) []

/-- A comment opens a text. -/
def OpensComment (t : Text) : Prop := lineOpening <+: t ∨ blockOpening <+: t

instance (t : Text) : Decidable (OpensComment t) :=
  inferInstanceAs (Decidable (lineOpening <+: t ∨ blockOpening <+: t))

theorem opensComment_cons {c : CodePoint} {t : Text} : OpensComment (c :: t) ↔
    c = slash ∧ (t.head? = some slash ∨ t.head? = some star) := by
  unfold OpensComment lineOpening blockOpening
  cases t with
  | nil => simp
  | cons d t => simp [List.cons_prefix_cons, eq_comm, and_or_left]

theorem IsComment.opensComment {t rest : Text} (h : IsComment t rest) :
    OpensComment (t ++ rest) := by
  cases h with
  | line => exact Or.inl ⟨_, (List.append_assoc _ _ _).symm⟩
  | block => exact Or.inr ⟨_, (List.append_assoc _ _ _).symm⟩
  | unclosed => exact Or.inr ⟨_, (List.append_assoc _ _ _).symm⟩

theorem line_append_injective {body body' rest rest' : Text}
    (hbody : ∀ c ∈ body, isLineBreak c = false) (hbody' : ∀ c ∈ body', isLineBreak c = false)
    (hrest : ∀ c, rest.head? = some c → isLineBreak c = true)
    (hrest' : ∀ c, rest'.head? = some c → isLineBreak c = true)
    (h : body ++ rest = body' ++ rest') : body = body' ∧ rest = rest' := by
  induction body generalizing body' with
  | nil =>
    cases body' with
    | nil => exact ⟨rfl, h⟩
    | cons c body' =>
      have hc := hrest c (by rw [← List.nil_append rest, h]; rfl)
      rw [hbody' c List.mem_cons_self] at hc
      cases hc
  | cons c body ih =>
    cases body' with
    | nil =>
      have hc := hrest' c (by rw [← List.nil_append rest', ← h]; rfl)
      rw [hbody c List.mem_cons_self] at hc
      cases hc
    | cons d body' =>
      obtain ⟨rfl, htail⟩ := List.cons.inj h
      obtain ⟨rfl, hsame⟩ :=
        ih (List.forall_mem_cons.mp hbody).2 (List.forall_mem_cons.mp hbody').2 htail
      exact ⟨rfl, hsame⟩

/-- The body of a block comment ends where it is closed first. -/
theorem block_append_injective {body body' rest rest' : Text} (hbody : ¬ blockClosing <:+: body)
    (hbody' : ¬ blockClosing <:+: body')
    (h : body ++ (blockClosing ++ rest) = body' ++ (blockClosing ++ rest')) :
    body = body' ∧ rest = rest' := by
  have hfirst : ∀ {body rest rest' : Text}, ¬ blockClosing <:+: body →
      blockClosing ++ rest = body ++ (blockClosing ++ rest') → body = [] := by
    intro body rest rest' hbody h
    match body with
    | [] => rfl
    | [c] =>
      have hslash : slash = star := (List.cons.inj (List.cons.inj h).2).1
      exact absurd hslash (by decide)
    | c :: d :: body =>
      obtain ⟨rfl, htail⟩ := List.cons.inj h
      obtain ⟨rfl, -⟩ := List.cons.inj htail
      exact absurd (List.prefix_append blockClosing body).isInfix hbody
  induction body generalizing body' with
  | nil =>
    obtain rfl := hfirst hbody' h
    exact ⟨rfl, List.append_cancel_left h⟩
  | cons c body ih =>
    cases body' with
    | nil => cases hfirst hbody h.symm
    | cons d body' =>
      have hless : ∀ {c : CodePoint} {u : Text},
          ¬ blockClosing <:+: c :: u → ¬ blockClosing <:+: u :=
        fun hu hin => hu (hin.trans (List.suffix_cons _ _).isInfix)
      obtain ⟨rfl, htail⟩ := List.cons.inj h
      obtain ⟨rfl, hsame⟩ := ih (hless hbody) (hless hbody') htail
      exact ⟨rfl, hsame⟩

theorem IsComment.unique {t t' rest rest' : Text} (h : IsComment t rest) (h' : IsComment t' rest')
    (heq : t ++ rest = t' ++ rest') : t = t' ∧ rest = rest' := by
  have hopening : ∀ u v : Text, lineOpening ++ u ≠ blockOpening ++ v := by
    intro u v heq
    have hsame : slash = star := (List.cons.inj (List.cons.inj heq).2).1
    exact absurd hsame (by decide)
  have hclosed : ∀ body body' rest : Text, ¬ blockClosing <:+: body' →
      body ++ (blockClosing ++ rest) ≠ body' := by
    rintro body _ rest hbody rfl
    exact hbody ⟨body, rest, List.append_assoc _ _ _⟩
  cases h with
  | line hbody hrest =>
    cases h' with
    | line hbody' hrest' =>
      rw [List.append_assoc, List.append_assoc] at heq
      have hlines := List.append_cancel_left heq
      obtain ⟨rfl, hsame⟩ := line_append_injective hbody hbody' hrest hrest' hlines
      exact ⟨rfl, hsame⟩
    | block =>
      rw [List.append_assoc, List.append_assoc] at heq
      exact absurd heq (hopening _ _)
    | unclosed =>
      rw [List.append_assoc, List.append_assoc] at heq
      exact absurd heq (hopening _ _)
  | block hbody rest =>
    rw [List.append_assoc, List.append_assoc] at heq
    cases h' with
    | line =>
      rw [List.append_assoc] at heq
      exact absurd heq.symm (hopening _ _)
    | block hbody' rest' =>
      rw [List.append_assoc, List.append_assoc] at heq
      have hblocks := List.append_cancel_left heq
      obtain ⟨rfl, hsame⟩ := block_append_injective hbody hbody' hblocks
      exact ⟨rfl, hsame⟩
    | unclosed hbody' =>
      rw [List.append_nil] at heq
      exact absurd (List.append_cancel_left heq) (hclosed _ _ _ hbody')
  | unclosed hbody =>
    rw [List.append_nil] at heq
    cases h' with
    | line =>
      rw [List.append_assoc] at heq
      exact absurd heq.symm (hopening _ _)
    | block hbody' rest' =>
      rw [List.append_assoc, List.append_assoc] at heq
      exact absurd (List.append_cancel_left heq).symm (hclosed _ _ _ hbody)
    | unclosed hbody' =>
      rw [List.append_nil] at heq
      exact ⟨heq, rfl⟩

/-- Where a comment is opened there is one. -/
theorem exists_isComment {t : Text} (h : OpensComment t) :
    ∃ comment rest, t = comment ++ rest ∧ IsComment comment rest := by
  rcases h with ⟨t, rfl⟩ | ⟨t, rfl⟩
  · refine ⟨lineOpening ++ t.takeWhile (!isLineBreak ·), t.dropWhile (!isLineBreak ·), ?_,
      .line (fun c hc => ?_) fun c hc => ?_⟩
    · rw [List.append_assoc, List.takeWhile_append_dropWhile]
    · simpa using (List.all_eq_true.mp List.all_takeWhile) c hc
    · have hhead := List.head?_dropWhile_not (!isLineBreak ·) t
      rw [hc] at hhead
      simpa using hhead
  · by_cases hclosed : blockClosing <:+: t
    · have hfirst : ∃ body rest, t = body ++ (blockClosing ++ rest) ∧ ¬ blockClosing <:+: body := by
        induction t with
        | nil => exact absurd hclosed (by decide)
        | cons c t ih =>
          by_cases hnow : blockClosing <+: c :: t
          · obtain ⟨rest, hrest⟩ := hnow
            exact ⟨[], rest, hrest.symm, by decide⟩
          · have hlater := (List.infix_cons_iff.mp hclosed).resolve_left hnow
            obtain ⟨body, rest, rfl, hbody⟩ := ih hlater
            refine ⟨c :: body, rest, rfl, fun hin => ?_⟩
            rcases List.infix_cons_iff.mp hin with hbegin | hin
            · exact hnow (hbegin.trans (List.prefix_append (c :: body) _))
            · exact hbody hin
      obtain ⟨body, rest, rfl, hbody⟩ := hfirst
      refine ⟨blockOpening ++ (body ++ blockClosing), rest, ?_, .block hbody rest⟩
      rw [List.append_assoc, List.append_assoc]
    · exact ⟨blockOpening ++ t, [], (List.append_nil _).symm, .unclosed hclosed⟩

/-! ### Divisions -/

/-- A piece of a text. -/
inductive Piece where
  /-- A code point that stands in no literal and in no comment. -/
  | plain (c : CodePoint)
  | literal (t : Text)
  | comment (t : Text)
deriving DecidableEq

/-- The text of a piece. -/
def Piece.text : Piece → Text
  | plain c => [c]
  | literal t | comment t => t

/-- **A text is divided into pieces.** -/
inductive Divides : Text → List Piece → Prop where
  | nil : Divides [] []
  | plain {c : CodePoint} {rest : Text} {pieces : List Piece} (hquote : c ≠ CodePoint.doubleQuote)
      (hcomment : ¬ OpensComment (c :: rest)) (h : Divides rest pieces) :
      Divides (c :: rest) (.plain c :: pieces)
  | literal {t rest : Text} {pieces : List Piece} (ht : IsLiteral t rest)
      (h : Divides rest pieces) : Divides (t ++ rest) (.literal t :: pieces)
  | comment {t rest : Text} {pieces : List Piece} (ht : IsComment t rest)
      (h : Divides rest pieces) : Divides (t ++ rest) (.comment t :: pieces)

theorem Divides.flatMap_text {t : Text} {pieces : List Piece} (h : Divides t pieces) :
    pieces.flatMap Piece.text = t := by
  induction h with
  | nil => rfl
  | plain _ _ _ ih => exact congrArg (_ :: ·) ih
  | literal _ _ ih => exact congrArg (_ ++ ·) ih
  | comment _ _ ih => exact congrArg (_ ++ ·) ih

theorem IsLiteral.head?_eq {t rest : Text} (h : IsLiteral t rest) :
    (t ++ rest).head? = some CodePoint.doubleQuote := by
  cases h <;> rfl

/-- **Every text is divided.** -/
theorem exists_divides (t : Text) : ∃ pieces, Divides t pieces := by
  induction hlength : t.length using Nat.strongRecOn generalizing t with
  | ind n ih =>
    subst hlength
    cases t with
    | nil => exact ⟨[], .nil⟩
    | cons c rest =>
      by_cases hquote : c = CodePoint.doubleQuote
      · subst hquote
        obtain ⟨inside, rest, rfl, hliteral⟩ := exists_isLiteral rest
        have hless : rest.length < (CodePoint.doubleQuote :: (inside ++ rest)).length := by
          rw [List.length_cons, List.length_append]
          omega
        obtain ⟨pieces, hpieces⟩ := ih _ hless rest rfl
        exact ⟨_, .literal hliteral hpieces⟩
      · by_cases hcomment : OpensComment (c :: rest)
        · obtain ⟨comment, others, heq, hwhole⟩ := exists_isComment hcomment
          have hne : comment ≠ [] := by
            rintro rfl
            cases hwhole
          have hless : others.length < (c :: rest).length := by
            rw [heq, List.length_append]
            have hpos := List.length_pos_iff.mpr hne
            omega
          obtain ⟨pieces, hpieces⟩ := ih _ hless others rfl
          rw [heq]
          exact ⟨_, .comment hwhole hpieces⟩
        · obtain ⟨pieces, hpieces⟩ := ih _ (Nat.lt_succ_self rest.length) rest rfl
          exact ⟨_, .plain hquote hcomment hpieces⟩

/-- What a division says of the beginning of a text. -/
theorem Divides.begins {t : Text} {pieces : List Piece} (h : Divides t pieces) :
    (t = [] ∧ pieces = []) ∨
      (∃ c rest others, t = c :: rest ∧ pieces = .plain c :: others ∧ c ≠ CodePoint.doubleQuote ∧
        ¬ OpensComment t ∧ Divides rest others) ∨
      (∃ s rest others, t = s ++ rest ∧ pieces = .literal s :: others ∧ IsLiteral s rest ∧
        Divides rest others) ∨
      ∃ s rest others, t = s ++ rest ∧ pieces = .comment s :: others ∧ IsComment s rest ∧
        Divides rest others := by
  cases h with
  | nil => exact .inl ⟨rfl, rfl⟩
  | plain hquote hcomment h => exact .inr (.inl ⟨_, _, _, rfl, rfl, hquote, hcomment, h⟩)
  | literal ht h => exact .inr (.inr (.inl ⟨_, _, _, rfl, rfl, ht, h⟩))
  | comment ht h => exact .inr (.inr (.inr ⟨_, _, _, rfl, rfl, ht, h⟩))

/-- No comment is opened where a string literal begins. -/
theorem IsLiteral.not_opensComment {t rest : Text} (h : IsLiteral t rest) :
    ¬ OpensComment (t ++ rest) := by
  intro hopens
  have hquote := h.head?_eq
  generalize t ++ rest = whole at hopens hquote
  obtain ⟨others, rfl⟩ := List.head?_eq_some_iff.mp hquote
  exact absurd (opensComment_cons.mp hopens).1 (by decide)

theorem Divides.of_plain {c : CodePoint} {rest : Text} {pieces : List Piece}
    (h : Divides (c :: rest) pieces) (hquote : c ≠ CodePoint.doubleQuote)
    (hcomment : ¬ OpensComment (c :: rest)) :
    ∃ others, pieces = .plain c :: others ∧ Divides rest others := by
  rcases h.begins with ⟨heq, -⟩ | ⟨d, u, others, heq, rfl, -, -, hu⟩ |
    ⟨s, u, others, heq, -, hs, -⟩ | ⟨s, u, others, heq, -, hs, -⟩
  · cases heq
  · obtain ⟨rfl, rfl⟩ := List.cons.inj heq
    exact ⟨others, rfl, hu⟩
  · have hhead := hs.head?_eq
    rw [← heq] at hhead
    exact absurd (Option.some.inj hhead) hquote
  · exact absurd (heq ▸ hs.opensComment) hcomment

theorem Divides.of_literal {t rest : Text} {pieces : List Piece} (h : Divides (t ++ rest) pieces)
    (ht : IsLiteral t rest) : ∃ others, pieces = .literal t :: others ∧ Divides rest others := by
  have hhead := ht.head?_eq
  rcases h.begins with ⟨heq, -⟩ | ⟨c, u, others, heq, -, hquote, -⟩ |
    ⟨s, u, others, heq, rfl, hs, hu⟩ | ⟨s, u, others, heq, -, hs, -⟩
  · rw [heq] at hhead
    cases hhead
  · rw [heq] at hhead
    exact absurd (Option.some.inj hhead) hquote
  · obtain ⟨rfl, rfl⟩ := ht.unique hs heq
    exact ⟨others, rfl, hu⟩
  · exact absurd (heq ▸ hs.opensComment) ht.not_opensComment

theorem Divides.of_comment {t rest : Text} {pieces : List Piece} (h : Divides (t ++ rest) pieces)
    (ht : IsComment t rest) : ∃ others, pieces = .comment t :: others ∧ Divides rest others := by
  rcases h.begins with ⟨heq, -⟩ | ⟨c, u, others, heq, -, -, hcomment, -⟩ |
    ⟨s, u, others, heq, -, hs, -⟩ | ⟨s, u, others, heq, rfl, hs, hu⟩
  · have hopens := ht.opensComment
    rw [heq] at hopens
    exact absurd hopens (by decide)
  · exact absurd ht.opensComment hcomment
  · exact absurd (heq ▸ ht.opensComment) hs.not_opensComment
  · obtain ⟨rfl, rfl⟩ := ht.unique hs heq
    exact ⟨others, rfl, hu⟩

theorem Divides.of_nil {pieces : List Piece} (h : Divides [] pieces) : pieces = [] := by
  rcases h.begins with ⟨-, hpieces⟩ | ⟨c, u, others, heq, -⟩ | ⟨s, u, others, heq, -, hs, -⟩ |
    ⟨s, u, others, heq, -, hs, -⟩
  · exact hpieces
  · cases heq
  · have hhead := hs.head?_eq
    rw [← heq] at hhead
    cases hhead
  · have hopens := hs.opensComment
    rw [← heq] at hopens
    exact absurd hopens (by decide)

/-- **A text is divided in one way only.** -/
theorem Divides.unique {t : Text} {pieces pieces' : List Piece} (h : Divides t pieces)
    (h' : Divides t pieces') : pieces = pieces' := by
  induction h generalizing pieces' with
  | nil => exact h'.of_nil.symm
  | plain hquote hcomment h ih =>
    obtain ⟨others, rfl, hothers⟩ := h'.of_plain hquote hcomment
    rw [ih hothers]
  | literal ht h ih =>
    obtain ⟨others, rfl, hothers⟩ := h'.of_literal ht
    rw [ih hothers]
  | comment ht h ih =>
    obtain ⟨others, rfl, hothers⟩ := h'.of_comment ht
    rw [ih hothers]

end Phrasebook.Comments
