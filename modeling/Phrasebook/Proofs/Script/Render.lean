import Phrasebook.Proofs.Text.Pieces
import Phrasebook.Script.Literal

/-! # The text of composed script

Composition works piece by piece; here is what it does to the text: rendering commutes with every
way of composing script, so the text depends only on the texts of the parts. -/

namespace Phrasebook

theorem Text.ofString_append (s t : String) : ofString (s ++ t) = ofString s ++ ofString t := by
  unfold ofString
  rw [String.toList_append, List.map_append]

@[simp] theorem Fragment.render_plain (t : Text) : (plain t).render = t := rfl

@[simp] theorem Fragment.render_code (c : Code) : (code c).render = c.render := rfl

theorem Fragment.flatten_pieces (f : Fragment) : f.pieces.flatten = f.render := by
  cases f with
  | plain t =>
    cases t with
    | nil => rfl
    | cons c t => exact List.append_nil (c :: t)
  | code c => rfl

namespace Code

theorem render_concat (parts : List Fragment) :
    (concat parts).render = (parts.map Fragment.render).flatten := by
  unfold concat render
  induction parts with
  | nil => rfl
  | cons part rest ih =>
    rw [List.flatMap_cons, List.flatten_append, ih, Fragment.flatten_pieces, List.map_cons,
      List.flatten_cons]

theorem padAfterBreaks_append (pad t u : Text) :
    padAfterBreaks pad (t ++ u) = padAfterBreaks pad t ++ padAfterBreaks pad u :=
  List.flatMap_append

/-- Indentation depends only on the text. -/
theorem render_indent (part : Fragment) (level : Int) :
    (indent part level).render = padAfterBreaks (padding level) part.render := by
  rw [← Fragment.flatten_pieces]
  unfold indent render
  induction part.pieces with
  | nil => rfl
  | cons piece rest ih =>
    rw [List.map_cons, List.flatten_cons, ih, List.flatten_cons, padAfterBreaks_append]

/-- The text with the padding before each line that is not empty; the flag says whether a line
begins. -/
def padLineStarts (pad : Text) : Bool → Text → Text
  | _, [] => []
  | atLineStart, c :: rest =>
    if c = CodePoint.lf then c :: padLineStarts pad true rest
    else (if atLineStart then pad else []) ++ c :: padLineStarts pad false rest

/-- Whether a line begins after a text; the flag says whether one begins before it. -/
def beginsLine : Bool → Text → Bool
  | atLineStart, [] => atLineStart
  | _, c :: rest => beginsLine (c = CodePoint.lf) rest

theorem padLineStarts_append (pad t u : Text) (atLineStart : Bool) :
    padLineStarts pad atLineStart (t ++ u) =
      padLineStarts pad atLineStart t ++ padLineStarts pad (beginsLine atLineStart t) u := by
  induction t generalizing atLineStart with
  | nil => rfl
  | cons c t ih =>
    by_cases hc : c = CodePoint.lf <;> simp [padLineStarts, beginsLine, hc, ih]

theorem beginsLine_append (t u : Text) (atLineStart : Bool) :
    beginsLine atLineStart (t ++ u) = beginsLine (beginsLine atLineStart t) u := by
  induction t generalizing atLineStart with
  | nil => rfl
  | cons c t ih => exact ih _

/-- Within a line only its beginning is padded. -/
theorem padLineStarts_line {pad line : Text} (h : CodePoint.lf ∉ line) (atLineStart : Bool) :
    padLineStarts pad atLineStart line =
      if line.isEmpty then [] else if atLineStart then pad ++ line else line := by
  induction line generalizing atLineStart with
  | nil => rfl
  | cons c line ih =>
    obtain ⟨hc, hline⟩ := not_or.mp (mt List.mem_cons.mpr h)
    have hrest : padLineStarts pad false line = line := by
      rw [ih hline false]
      cases line <;> rfl
    cases atLineStart <;> simp [padLineStarts, Ne.symm hc, hrest]

theorem beginsLine_line {line : Text} (h : CodePoint.lf ∉ line) (atLineStart : Bool) :
    beginsLine atLineStart line = (atLineStart && line.isEmpty) := by
  induction line generalizing atLineStart with
  | nil => simp [beginsLine]
  | cons c line ih =>
    obtain ⟨hc, hline⟩ := not_or.mp (mt List.mem_cons.mpr h)
    simp [beginsLine, Ne.symm hc, ih hline]

/-- The text of some lines; the flag says that a line feed stands before the first one, too. -/
def unlines : Bool → List Text → Text
  | _, [] => []
  | broken, line :: rest => (if broken then [CodePoint.lf] else []) ++ line ++ unlines true rest

theorem unlines_split (t : Text) : unlines false (Text.split CodePoint.lf t) = t := by
  have hbroken : ∀ pieces : List Text, pieces ≠ [] →
      unlines true pieces = CodePoint.lf :: unlines false pieces := by
    intro pieces hne
    cases pieces with
    | nil => exact absurd rfl hne
    | cons piece pieces => simp [unlines]
  induction t with
  | nil => rfl
  | cons c t ih =>
    unfold Text.split
    split_ifs with hc
    · rw [unlines, hbroken _ (Text.split_ne_nil _ t), ih, hc]
      rfl
    · split
      next h => exact absurd h (Text.split_ne_nil _ t)
      next piece pieces h =>
        rw [h] at ih
        simpa [unlines] using ih

theorem padLines_eq (pad : Text) {lines : List Text} (h : ∀ line ∈ lines, CodePoint.lf ∉ line)
    (broken atLineStart : Bool) :
    (padLines pad broken atLineStart lines).1.flatten =
        padLineStarts pad atLineStart (unlines broken lines) ∧
      (padLines pad broken atLineStart lines).2 =
        beginsLine atLineStart (unlines broken lines) := by
  induction lines generalizing broken atLineStart with
  | nil => exact ⟨rfl, rfl⟩
  | cons line rest ih =>
    obtain ⟨hline, hrest⟩ := List.forall_mem_cons.mp h
    have hbreak : padLineStarts pad atLineStart (if broken then [CodePoint.lf] else []) =
        if broken then [CodePoint.lf] else [] := by
      cases broken <;> rfl
    have hbegins : beginsLine atLineStart (if broken then [CodePoint.lf] else []) =
        (broken || atLineStart) := by
      cases broken <;> rfl
    obtain ⟨ihtext, ihflag⟩ := ih hrest true ((broken || atLineStart) && line.isEmpty)
    simp only [padLines, unlines, List.flatten_append, padLineStarts_append, beginsLine_append,
      hbreak, hbegins, padLineStarts_line hline, beginsLine_line hline, ihtext, ihflag, and_true]
    congr 2
    · cases broken <;> rfl
    · cases hl : line.isEmpty
      · cases hs : broken || atLineStart <;> simp
      · simp

theorem flatten_padPieces (pad : Text) (pieces : List Text) (atLineStart : Bool) :
    (padPieces pad atLineStart pieces).flatten = padLineStarts pad atLineStart pieces.flatten := by
  induction pieces generalizing atLineStart with
  | nil => rfl
  | cons piece rest ih =>
    have hlines := padLines_eq pad (fun _ hline => Text.not_mem_of_mem_split (t := piece) hline) false
      atLineStart
    rw [unlines_split] at hlines
    simp only [padPieces, List.flatten_append, List.flatten_cons, padLineStarts_append, ih, hlines]

/-- Indentation of lines depends only on the text. -/
theorem render_indentLines (part : Fragment) (level : Int) :
    (indentLines part level).render = padLineStarts (padding level) true part.render := by
  unfold indentLines render
  rw [flatten_padPieces, Fragment.flatten_pieces]

theorem flatten_intersperse (separator : List Text) (parts : List (List Text)) :
    ((parts.intersperse separator).flatten).flatten =
      Text.join separator.flatten (parts.map List.flatten) := by
  unfold Text.join List.intercalate
  induction parts with
  | nil => rfl
  | cons part rest ih =>
    cases rest with
    | nil => simp
    | cons next rest =>
      simp only [List.map_cons, List.intersperse_cons_cons, List.flatten_cons,
        List.flatten_append] at ih ⊢
      rw [ih]

theorem infix_join {t : Text} {parts : List Text} (h : t ∈ parts) (separator : Text) :
    t <:+: Text.join separator parts := by
  unfold Text.join
  induction parts with
  | nil => cases h
  | cons part rest ih =>
    cases rest with
    | nil =>
      obtain rfl := List.mem_singleton.mp h
      exact ⟨[], [], by rw [List.nil_append, List.append_nil, List.intercalate_singleton]⟩
    | cons next others =>
      rw [List.intercalate_cons_cons]
      rcases List.mem_cons.mp h with rfl | h
      · rw [List.append_assoc]
        exact (List.prefix_append _ _).isInfix
      · exact (ih h).trans (List.suffix_append _ _).isInfix

theorem join_append (separator : Text) {first rest : List Text} (hfirst : first ≠ [])
    (hrest : rest ≠ []) : Text.join separator (first ++ rest) =
      Text.join separator first ++ separator ++ Text.join separator rest := by
  unfold Text.join
  induction first with
  | nil => exact absurd rfl hfirst
  | cons part others ih =>
    cases others with
    | nil =>
      cases rest with
      | nil => exact absurd rfl hrest
      | cons next rest =>
        rw [List.singleton_append, List.intercalate_cons_cons, List.intercalate_singleton]
    | cons next others =>
      rw [List.cons_append, List.cons_append, List.intercalate_cons_cons, ← List.cons_append,
        ih (List.cons_ne_nil _ _), List.intercalate_cons_cons]
      simp only [List.append_assoc]

theorem render_join (separator : Fragment) (parts : List Fragment) :
    (join separator parts).render = Text.join separator.render (parts.map Fragment.render) := by
  have hparts : (parts.map Fragment.pieces).map List.flatten = parts.map Fragment.render := by
    rw [List.map_map]
    exact List.map_congr_left fun part _ => part.flatten_pieces
  unfold join render
  rw [flatten_intersperse, hparts, Fragment.flatten_pieces]

theorem infix_concat {f : Fragment} {parts : List Fragment} (h : f ∈ parts) :
    f.render <:+: (Code.concat parts).render := by
  rw [Code.render_concat]
  exact List.infix_of_mem_flatten (List.mem_map_of_mem h)

theorem render_call (callee : Fragment) (arguments : List Fragment) :
    (call callee arguments).render =
      callee.render ++ "(" ++ Text.join ", " (arguments.map Fragment.render) ++ ")" := by
  unfold call
  rw [render_concat]
  simp only [List.map_cons, List.map_nil, List.flatten_cons, List.flatten_nil, List.append_nil,
    List.append_assoc, Fragment.render_plain, Fragment.render_code, render_join]

theorem render_call_plain (callee : String) (arguments : List Fragment) :
    (call (Fragment.plain callee) arguments).render =
      Text.ofString (callee ++ "(") ++ (Text.join ", " (arguments.map Fragment.render) ++ ")") := by
  rw [render_call, Fragment.render_plain, Text.ofString_append, List.append_assoc]

/-- What stands in a template literal after the backtick that opens it. -/
def templateRest (first : Text) (rest : List (Fragment × Text)) : Text :=
  templateText first ++ rest.flatMap (fun part =>
    interpolationStart ++ part.1.render ++ interpolationEnd ++ templateText part.2) ++
      [CodePoint.backtick]

theorem templateRest_nil : templateRest [] [] = [CodePoint.backtick] := rfl

theorem templateRest_append (t u : Text) (rest : List (Fragment × Text)) :
    templateRest (t ++ u) rest = templateText t ++ templateRest u rest := by
  have h : templateText (t ++ u) = templateText t ++ templateText u := by
    unfold templateText Text.spellSurrogates
    rw [List.flatMap_append, List.flatMap_append]
  unfold templateRest
  rw [h]
  simp only [List.append_assoc]

theorem templateRest_cons (part : Fragment × Text) (rest : List (Fragment × Text)) :
    templateRest [] (part :: rest) =
      interpolationStart ++ part.1.render ++ interpolationEnd ++ templateRest part.2 rest := by
  unfold templateRest
  rw [List.flatMap_cons]
  simp only [List.append_assoc]
  rfl

theorem render_template (first : Text) (rest : List (Fragment × Text)) :
    (template first rest).render = CodePoint.backtick :: templateRest first rest := by
  have hrest : ((rest.flatMap fun part => [Fragment.plain interpolationStart, part.1,
      Fragment.plain interpolationEnd, Fragment.plain (templateText part.2)]).map
        Fragment.render).flatten = rest.flatMap fun part =>
          interpolationStart ++ part.1.render ++ interpolationEnd ++ templateText part.2 := by
    induction rest with
    | nil => rfl
    | cons part rest ih =>
      rw [List.flatMap_cons, List.map_append, List.flatten_append, ih, List.flatMap_cons]
      simp
  unfold template templateRest
  rw [render_concat, List.map_append, List.map_append, List.flatten_append, List.flatten_append,
    hrest]
  simp

end Code

end Phrasebook
