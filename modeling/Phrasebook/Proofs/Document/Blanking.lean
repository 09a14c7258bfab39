import Phrasebook.Proofs.Document.Comments
import Phrasebook.Text.Cursor

/-! # Texts with blanked comments

Blanking takes a text piece by piece: in comments each code point but the line breaks becomes a
space, and all else stays as it is (`Divides.blank_eq`). So a text keeps its length, every position
keeps its line and column, and blanking a second time changes nothing (`blank_keeps`). -/

namespace Phrasebook

/-! ### Lines and columns -/

/-- Lines and columns depend only on where the line feeds stand. -/
theorem Cursor.lineColumn_congr {t u : Text}
    (h : t.map (decide <| · = CodePoint.lf) = u.map (decide <| · = CodePoint.lf)) (position : Int) :
    (Cursor.mk t position).lineColumn = (Cursor.mk u position).lineColumn := by
  have hlength : t.length = u.length := by simpa using congrArg List.length h
  have hslice : (t.slice 0 position).map (decide <| · = CodePoint.lf) =
      (u.slice 0 position).map (decide <| · = CodePoint.lf) := by
    unfold Text.slice Text.bound
    rw [List.map_take, List.map_take, List.map_drop, List.map_drop, h, hlength]
  have hcount : ∀ s : Text, s.count CodePoint.lf =
      (s.map (decide <| · = CodePoint.lf)).count true := by
    intro s
    rw [List.count_eq_countP, List.count_eq_countP, List.countP_map]
    exact List.countP_congr fun c _ => by simp
  have hlast : ∀ s : Text, (s.reverse.takeWhile (· ≠ CodePoint.lf)).length =
      ((s.map (decide <| · = CodePoint.lf)).reverse.takeWhile (!·)).length := by
    intro s
    rw [← List.map_reverse, List.takeWhile_map, List.length_map]
    congr 2
    funext c
    simp
  have hsame := congrArg List.length hslice
  rw [List.length_map, List.length_map] at hsame
  unfold lineColumn
  simp only [hcount, hlast, hslice, hsame]

namespace Comments

/-! ### Pieces -/

/-- What blanking makes of a code point of a piece. -/
def Piece.blankPoint : Piece → CodePoint → CodePoint
  | plain _, c | literal _, c => c
  | comment _, c => Comments.blankPoint c

/-- The text of a piece once comments are blanked. -/
def Piece.blanked (p : Piece) : Text := p.text.map p.blankPoint

theorem Piece.length_blanked (p : Piece) : p.blanked.length = p.text.length := List.length_map _

theorem blankFrom_plain {c : CodePoint} {rest : Text} (hquote : c ≠ CodePoint.doubleQuote)
    (hcomment : ¬ OpensComment (c :: rest)) :
    blankFrom .outside (c :: rest) = c :: blankFrom .outside rest := by
  rw [opensComment_cons, not_and_or, not_or] at hcomment
  rw [blankFrom]
  rcases hcomment with hc | ⟨hslash, hstar⟩
  · simp only [if_neg hquote, decide_eq_false hc, Bool.false_and, Bool.false_eq_true, if_false]
  · simp only [if_neg hquote, decide_eq_false hslash, decide_eq_false hstar, Bool.and_false,
      Bool.false_eq_true, if_false]

theorem IsLiteral.blankFrom_eq {t rest : Text} (h : IsLiteral t rest) :
    blankFrom .outside (t ++ rest) = t ++ blankFrom .outside rest := by
  cases h with
  | closed hinside rest => exact uncommented_literal hinside rest
  | @unclosed t hinside =>
    have hall := blankFrom_inside hinside []
    rw [List.append_nil] at hall
    rw [List.append_nil, blankFrom_doubleQuote, hall]
    rfl
  | escaping hinside =>
    rw [List.append_nil, blankFrom_doubleQuote, blankFrom_inside hinside]
    exact (List.append_nil _).symm

/-- A line break opens nothing. -/
theorem blankFrom_lineBreak {c : CodePoint} (h : isLineBreak c = true) (rest : Text) :
    blankFrom .outside (c :: rest) = c :: blankFrom .outside rest := by
  refine blankFrom_plain ?_ fun hopens => ?_
  · rintro rfl
    cases h
  · rw [(opensComment_cons.mp hopens).1] at h
    cases h

theorem blankFrom_inLine {body rest : Text} (hbody : ∀ c ∈ body, isLineBreak c = false)
    (hrest : ∀ c, rest.head? = some c → isLineBreak c = true) :
    blankFrom .inLine (body ++ rest) = body.map blankPoint ++ blankFrom .outside rest := by
  induction body with
  | nil =>
    cases rest with
    | nil => rfl
    | cons c rest =>
      have hc := hrest c rfl
      rw [List.map_nil, List.nil_append, List.nil_append, blankFrom_lineBreak hc, blankFrom]
      exact if_pos hc
  | cons c body ih =>
    obtain ⟨hc, hbody⟩ := List.forall_mem_cons.mp hbody
    rw [List.cons_append, blankFrom]
    simp only [hc, Bool.false_eq_true, if_false]
    rw [ih hbody, List.map_cons, List.cons_append]

/-- A block comment goes on over a body in which it is not closed. -/
theorem blankFrom_inBlock {body rest : Text} (hbody : ¬ blockClosing <:+: body)
    (hrest : rest.head? ≠ some slash) :
    blankFrom .inBlock (body ++ rest) = body.map blankPoint ++ blankFrom .inBlock rest := by
  induction body with
  | nil => rfl
  | cons c body ih =>
    have hopen : ¬ (c = star ∧ (body ++ rest).head? = some slash) := by
      rintro ⟨rfl, hhead⟩
      cases body with
      | nil => exact hrest hhead
      | cons d body =>
        obtain rfl := Option.some.inj hhead
        exact hbody (List.prefix_append blockClosing body).isInfix
    have hless : ¬ blockClosing <:+: body :=
      fun hin => hbody (hin.trans (List.suffix_cons c body).isInfix)
    rw [List.cons_append, blankFrom]
    simp only [Bool.and_eq_true, decide_eq_true_eq, if_neg hopen]
    rw [ih hless, List.map_cons, List.cons_append]

/-- **A comment is blanked**, and reading goes on behind it. -/
theorem IsComment.blankFrom_eq {t rest : Text} (h : IsComment t rest) :
    blankFrom .outside (t ++ rest) = t.map blankPoint ++ blankFrom .outside rest := by
  have hline : ∀ u, blankFrom .outside (lineOpening ++ u) =
      lineOpening.map blankPoint ++ blankFrom .inLine u := fun _ => rfl
  have hblock : ∀ u, blankFrom .outside (blockOpening ++ u) =
      blockOpening.map blankPoint ++ blankFrom .inBlock u := fun _ => rfl
  have hclose : ∀ u, blankFrom .inBlock (blockClosing ++ u) =
      blockClosing.map blankPoint ++ blankFrom .outside u := fun _ => rfl
  cases h with
  | line hbody hrest =>
    rw [List.append_assoc, hline, blankFrom_inLine hbody hrest, List.map_append, List.append_assoc]
  | block hbody rest =>
    have hhead : (blockClosing ++ rest).head? ≠ some slash := by
      intro heq
      exact absurd (Option.some.inj heq) (by decide)
    simp only [List.append_assoc, List.map_append, hblock, blankFrom_inBlock hbody hhead, hclose]
  | unclosed hbody =>
    have hall := blankFrom_inBlock hbody (show ([] : Text).head? ≠ some slash from nofun)
    rw [List.append_nil] at hall
    rw [List.append_nil, hblock, hall, List.map_append, List.append_assoc]
    rfl

/-- **Blanking takes a text piece by piece.** -/
theorem Divides.blank_eq {t : Text} {pieces : List Piece} (h : Divides t pieces) :
    blank t = pieces.flatMap Piece.blanked := by
  unfold blank
  induction h with
  | nil => rfl
  | plain hquote hcomment _ ih =>
    rw [blankFrom_plain hquote hcomment, ih]
    rfl
  | @literal t rest pieces ht _ ih =>
    have hsame : (Piece.literal t).blanked = t := List.map_id t
    rw [ht.blankFrom_eq, ih, List.flatMap_cons, hsame]
  | comment ht _ ih =>
    rw [ht.blankFrom_eq, ih]
    rfl

/-! ### Positions -/

/-- The piece in which a position of a text lies. -/
def pieceAt? : List Piece → Nat → Option Piece
  | [], _ => none
  | p :: rest, i => if i < p.text.length then some p else pieceAt? rest (i - p.text.length)

/-- **A position lies in a comment.** -/
def InComment (t : Text) (i : Nat) : Prop :=
  ∃ pieces comment, Divides t pieces ∧ pieceAt? pieces i = some (.comment comment)

/-- **A position lies in a string literal**, the quotation marks included. -/
def InLiteral (t : Text) (i : Nat) : Prop :=
  ∃ pieces literal, Divides t pieces ∧ pieceAt? pieces i = some (.literal literal)

theorem getElem?_flatMap_blanked (pieces : List Piece) (i : Nat) :
    (pieces.flatMap Piece.blanked)[i]? = (pieceAt? pieces i).bind fun p =>
      ((pieces.flatMap Piece.text)[i]?).map p.blankPoint := by
  induction pieces generalizing i with
  | nil => rfl
  | cons p rest ih =>
    rw [List.flatMap_cons, List.flatMap_cons, pieceAt?]
    split_ifs with hi
    · rw [List.getElem?_append_left (p.length_blanked.symm ▸ hi), List.getElem?_append_left hi,
        Piece.blanked, List.getElem?_map, Option.bind_some]
    · have hle := Nat.le_of_not_lt hi
      rw [List.getElem?_append_right (p.length_blanked.symm ▸ hle), List.getElem?_append_right hle,
        p.length_blanked, ih]

theorem pieceAt?_eq_none {pieces : List Piece} {i : Nat} (h : pieceAt? pieces i = none) :
    (pieces.flatMap Piece.text)[i]? = none := by
  induction pieces generalizing i with
  | nil => rfl
  | cons p rest ih =>
    rw [pieceAt?] at h
    split_ifs at h with hi
    rw [List.flatMap_cons, List.getElem?_append_right (Nat.le_of_not_lt hi), ih h]

theorem getElem?_blank {t : Text} {pieces : List Piece} (h : Divides t pieces) (i : Nat) :
    (blank t)[i]? = (pieceAt? pieces i).bind fun p => (t[i]?).map p.blankPoint := by
  rw [h.blank_eq, getElem?_flatMap_blanked, h.flatMap_text]

section Positions
variable {t : Text} {i : Nat}

theorem InComment.getElem?_blank (h : InComment t i) : (blank t)[i]? = (t[i]?).map blankPoint := by
  obtain ⟨pieces, comment, hpieces, hat⟩ := h
  rw [Comments.getElem?_blank hpieces, hat]
  rfl

theorem getElem?_blank_of_not (h : ¬ InComment t i) : (blank t)[i]? = t[i]? := by
  obtain ⟨pieces, hpieces⟩ := exists_divides t
  rw [Comments.getElem?_blank hpieces]
  cases hat : pieceAt? pieces i with
  | none =>
    have hnone := pieceAt?_eq_none hat
    rw [hpieces.flatMap_text] at hnone
    rw [hnone]
    rfl
  | some p =>
    cases p with
    | plain => exact Option.map_id'
    | literal => exact Option.map_id'
    | comment s => exact absurd ⟨pieces, s, hpieces, hat⟩ h

theorem InLiteral.not_inComment (h : InLiteral t i) : ¬ InComment t i := by
  rintro ⟨pieces', comment, hpieces', hcomment⟩
  obtain ⟨pieces, literal, hpieces, hliteral⟩ := h
  rw [hpieces.unique hpieces', hcomment] at hliteral
  cases hliteral

end Positions

/-! ### Blanking a second time -/

/-- A piece once comments are blanked: what stood in a comment stands in none any more. -/
def Piece.withoutComment : Piece → List Piece
  | comment t => t.map fun c => .plain (Comments.blankPoint c)
  | p => [p]

theorem Piece.flatMap_withoutComment (p : Piece) :
    p.withoutComment.flatMap Piece.blanked = p.blanked := by
  cases p with
  | plain => rfl
  | literal t => exact List.append_nil _
  | comment t =>
    have hsingle : ∀ c, (Piece.plain (Comments.blankPoint c)).blanked = [Comments.blankPoint c] :=
      fun _ => rfl
    simp only [withoutComment, List.flatMap_map, hsingle]
    exact (List.map_eq_flatMap ..).symm

theorem blankPoint_ne (c : CodePoint) :
    blankPoint c ≠ CodePoint.doubleQuote ∧ blankPoint c ≠ slash := by
  unfold blankPoint
  split_ifs with h
  · constructor
    · rintro rfl
      cases h
    · rintro rfl
      cases h
  · decide

theorem head?_blank (t : Text) :
    (blank t).head? = t.head? ∨ (blank t).head? = some CodePoint.space := by
  simp only [List.head?_eq_getElem?]
  by_cases h : InComment t 0
  · rw [h.getElem?_blank]
    cases t[0]? with
    | none => exact Or.inl rfl
    | some c =>
      unfold blankPoint
      by_cases hc : isLineBreak c = true
      · exact Or.inl (congrArg some (if_pos hc))
      · exact Or.inr (congrArg some (if_neg hc))
  · exact Or.inl (getElem?_blank_of_not h)

theorem opensComment_of_blank {c : CodePoint} {t : Text} (h : OpensComment (c :: blank t)) :
    OpensComment (c :: t) := by
  obtain ⟨hc, hhead⟩ := opensComment_cons.mp h
  rcases head?_blank t with heq | hspace
  · rw [heq] at hhead
    exact opensComment_cons.mpr ⟨hc, hhead⟩
  · rw [hspace] at hhead
    exact absurd hhead (by decide)

theorem IsLiteral.blank {t rest : Text} (h : IsLiteral t rest) :
    IsLiteral t (Comments.blank rest) := by
  cases h with
  | closed hinside => exact .closed hinside _
  | unclosed hinside => exact .unclosed hinside
  | escaping hinside => exact .escaping hinside

/-- **A text with blanked comments is divided as before**, but for the comments. -/
theorem Divides.blank {t : Text} {pieces : List Piece} (h : Divides t pieces) :
    Divides (Comments.blank t) (pieces.flatMap Piece.withoutComment) := by
  induction h with
  | nil => exact .nil
  | @plain c rest pieces hquote hcomment h ih =>
    have hstep : Comments.blank (c :: rest) = c :: Comments.blank rest :=
      blankFrom_plain hquote hcomment
    rw [hstep]
    exact .plain hquote (fun hopens => hcomment (opensComment_of_blank hopens)) ih
  | @literal t rest pieces ht h ih =>
    have hstep : Comments.blank (t ++ rest) = t ++ Comments.blank rest := ht.blankFrom_eq
    rw [hstep]
    exact .literal ht.blank ih
  | @comment t rest pieces ht h ih =>
    have hstep : Comments.blank (t ++ rest) = t.map blankPoint ++ Comments.blank rest :=
      ht.blankFrom_eq
    rw [hstep, List.flatMap_cons, Piece.withoutComment]
    clear ht hstep
    induction t with
    | nil => exact ih
    | cons c t ihrest =>
      obtain ⟨hquote, hslash⟩ := blankPoint_ne c
      exact .plain hquote (fun hopens => hslash (opensComment_cons.mp hopens).1) ihrest

/-- **Blanking a second time changes nothing.** -/
theorem blank_blank (t : Text) : blank (blank t) = blank t := by
  obtain ⟨pieces, hpieces⟩ := exists_divides t
  rw [hpieces.blank.blank_eq, hpieces.blank_eq, List.flatMap_assoc]
  exact congrArg (pieces.flatMap ·) (funext Piece.flatMap_withoutComment)

/-! ### Blanked texts -/

theorem isLineBreak_blankPoint (c : CodePoint) :
    decide (blankPoint c = CodePoint.lf) = decide (c = CodePoint.lf) := by
  unfold blankPoint
  split_ifs with h
  · rfl
  · have hne : c ≠ CodePoint.lf := by
      rintro rfl
      exact h rfl
    rw [decide_eq_false hne]
    rfl

theorem Piece.map_blanked (p : Piece) :
    p.blanked.map (decide <| · = CodePoint.lf) = p.text.map (decide <| · = CodePoint.lf) := by
  unfold blanked
  rw [List.map_map]
  refine List.map_congr_left fun c _ => ?_
  cases p with
  | plain => rfl
  | literal => rfl
  | comment => exact isLineBreak_blankPoint c

theorem map_blank (t : Text) :
    (blank t).map (decide <| · = CodePoint.lf) = t.map (decide <| · = CodePoint.lf) := by
  obtain ⟨pieces, hpieces⟩ := exists_divides t
  rw [hpieces.blank_eq, ← hpieces.flatMap_text, List.map_flatMap, List.map_flatMap]
  exact congrArg (pieces.flatMap ·) (funext Piece.map_blanked)

/-- **Blanking comments keeps every position and changes nothing else.** A text is divided into
string literals, comments and the rest in just one way. Of the blanked text, each code point is the
one at the same position, or a space for one of a comment that does not break the line; string
literals stay as they are, and so do the length, the line and column of every position, and what is
blanked already. -/
theorem blank_keeps (t : Text) :
    (∃ pieces, Divides t pieces ∧ ∀ others, Divides t others → others = pieces) ∧
    (blank t).length = t.length ∧
    (∀ i, (InComment t i ∧ (blank t)[i]? = (t[i]?).map blankPoint) ∨
      (¬ InComment t i ∧ (blank t)[i]? = t[i]?)) ∧
    (∀ i, InLiteral t i → ¬ InComment t i ∧ (blank t)[i]? = t[i]?) ∧
    (∀ position, (Cursor.mk (blank t) position).lineColumn = (Cursor.mk t position).lineColumn) ∧
    blank (blank t) = blank t := by
  obtain ⟨pieces, hpieces⟩ := exists_divides t
  have hlines := map_blank t
  refine ⟨⟨pieces, hpieces, fun others h => h.unique hpieces⟩, ?_, fun i => ?_, fun i h => ?_,
    Cursor.lineColumn_congr hlines, blank_blank t⟩
  · simpa using congrArg List.length hlines
  · by_cases h : InComment t i
    · exact Or.inl ⟨h, h.getElem?_blank⟩
    · exact Or.inr ⟨h, getElem?_blank_of_not h⟩
  · exact ⟨h.not_inComment, getElem?_blank_of_not h.not_inComment⟩

/-- A block comment whose opening does not close it, and a string literal and a line comment with
openings in them. -/
theorem blank_keeps_overlapping :
    let t : Text := "/*/*/\"/*\"//*\""
    (InComment t 2 ∧ (blank t)[2]? = some CodePoint.space) ∧
      (InLiteral t 6 ∧ (blank t)[6]? = some slash) ∧
      (InComment t 12 ∧ (blank t)[12]? = some CodePoint.space) ∧ blank (blank t) = blank t := by
  intro t
  have hdivides : Divides t [.comment "/*/*/", .literal "\"/*\"", .comment "//*\""] := by
    have hblock : IsComment (blockOpening ++ ([slash] ++ blockClosing)) "\"/*\"//*\"" :=
      .block (by decide) _
    have hliteral : IsLiteral (CodePoint.doubleQuote :: ([slash, star] ++ [CodePoint.doubleQuote]))
        "//*\"" := .closed (inside_of_forall (by decide)) _
    have hline : IsComment (lineOpening ++ [star, CodePoint.doubleQuote]) [] :=
      .line (by decide) nofun
    exact .comment hblock (.literal hliteral (.comment hline .nil))
  obtain ⟨-, -, hposition, hliteral, -, htwice⟩ := blank_keeps t
  have hblock : InComment t 2 := ⟨_, _, hdivides, rfl⟩
  have hline : InComment t 12 := ⟨_, _, hdivides, rfl⟩
  have hinside : InLiteral t 6 := ⟨_, _, hdivides, rfl⟩
  have hspace : ∀ i, InComment t i → (blank t)[i]? = (t[i]?).map blankPoint := by
    intro i hi
    rcases hposition i with ⟨-, h⟩ | ⟨h, -⟩
    · exact h
    · exact absurd hi h
  exact ⟨⟨hblock, hspace 2 hblock⟩, ⟨hinside, (hliteral 6 hinside).2⟩, ⟨hline, hspace 12 hline⟩,
    htwice⟩

end Comments

end Phrasebook
