import Phrasebook.Proofs.Script.Layout

/-! # Indentation line by line

Indentation goes through the pieces of a fragment one by one, and a line may begin in one piece and
end in another. What comes out is told by the lines of the whole text: each line that is not empty
is padded (`render_indentLines_eq_join`), or each line but the first (`render_indent_eq_join`). So
the pieces play no role, and indentation twice is indentation by both levels together. -/

namespace Phrasebook

namespace Code

/-- A line with padding, unless it is empty. -/
def paddedLine (pad line : Text) : Text := if line = [] then [] else pad ++ line

/-- **The lines of a text are padded one by one.** -/
theorem padLineStarts_join (pad : Text) {lines : List Text} (h : ∀ line ∈ lines, Unbroken line) :
    padLineStarts pad true (Text.join [CodePoint.lf] lines) =
      Text.join [CodePoint.lf] (lines.map (paddedLine pad)) := by
  unfold Text.join
  induction lines with
  | nil => rfl
  | cons line rest ih =>
    obtain ⟨hline, hrest⟩ := List.forall_mem_cons.mp h
    have hpadded : padLineStarts pad true line = paddedLine pad line := by
      rw [padLineStarts_line hline, if_pos rfl, paddedLine]
      simp only [List.isEmpty_iff]
    cases rest with
    | nil =>
      rw [List.map_singleton, List.intercalate_singleton, List.intercalate_singleton, hpadded]
    | cons next others =>
      have hbreak : ∀ atLineStart : Bool,
          padLineStarts pad atLineStart [CodePoint.lf] = [CodePoint.lf] := fun _ => rfl
      have hbegins : beginsLine true (line ++ [CodePoint.lf]) = true := by
        rw [beginsLine_append]
        rfl
      rw [List.intercalate_cons_cons, padLineStarts_append, padLineStarts_append, hbegins, hbreak,
        ih hrest, hpadded]
      simp only [List.map_cons, List.intercalate_cons_cons]

theorem padAfterBreaks_join_lines (pad : Text) {lines : List Text}
    (h : ∀ line ∈ lines, Unbroken line) :
    padAfterBreaks pad (Text.join [CodePoint.lf] lines) =
      Text.join (CodePoint.lf :: pad) lines := by
  have hbreak : padAfterBreaks pad [CodePoint.lf] = CodePoint.lf :: pad := List.append_nil _
  have hlines : lines.map (padAfterBreaks pad) = lines :=
    (List.map_congr_left fun line hline => (h line hline).padAfterBreaks pad).trans
      (List.map_id lines)
  rw [padAfterBreaks_join, hbreak, hlines]

/-! ### Indentation -/

theorem padding_add (a b : Nat) : padding (a + b : Nat) = padding b ++ padding a := by
  unfold padding
  rw [Int.toNat_natCast, Int.toNat_natCast, Int.toNat_natCast, Nat.add_comm,
    List.replicate_add, List.flatten_append]

theorem unbroken_padding (level : Int) : Unbroken (padding level) := by
  have hunit : Unbroken indentUnit := by decide
  refine unbroken_flatten fun t ht => ?_
  rw [List.eq_of_mem_replicate ht]
  exact hunit

section Lines
variable (part : Fragment) (level : Int)

theorem render_indentLines_eq_join : (indentLines part level).render = Text.join [CodePoint.lf]
    ((Text.split CodePoint.lf part.render).map (paddedLine (padding level))) := by
  have hlines := padLineStarts_join (padding level)
    fun _ => Text.not_mem_of_mem_split (t := part.render)
  rw [render_indentLines, ← hlines, Text.join_split]

theorem render_indent_eq_join : (indent part level).render =
    Text.join (CodePoint.lf :: padding level) (Text.split CodePoint.lf part.render) := by
  have hlines := padAfterBreaks_join_lines (padding level)
    fun _ => Text.not_mem_of_mem_split (t := part.render)
  rw [render_indent, ← hlines, Text.join_split]

end Lines

/-- **Indentation works line by line**, whatever the pieces. With lines padded at their beginning,
the lines of the text that are not empty come out padded, and the empty ones empty; otherwise the
padding stands after each line feed. Either way the text comes out as if it were one piece, and the
second way two levels add up. -/
theorem indentation_by_lines (part : Fragment) (level : Int) :
    (indentLines part level).render = Text.join [CodePoint.lf]
        ((Text.split CodePoint.lf part.render).map (paddedLine (padding level))) ∧
      (indent part level).render =
        Text.join (CodePoint.lf :: padding level) (Text.split CodePoint.lf part.render) ∧
      (indentLines part level).render = (indentLines (.plain part.render) level).render ∧
      (indent part level).render = (indent (.plain part.render) level).render ∧
      ∀ a b : Nat, (indent (indent part a) b).render = (indent part (a + b : Nat)).render := by
  refine ⟨render_indentLines_eq_join part level, render_indent_eq_join part level, ?_, ?_, ?_⟩
  · rw [render_indentLines_eq_join, render_indentLines_eq_join, Fragment.render_plain]
  · rw [render_indent_eq_join, render_indent_eq_join, Fragment.render_plain]
  · intro a b
    rw [render_indent, render_indent, Fragment.render_code, render_indent,
      padAfterBreaks_padAfterBreaks (unbroken_padding a), padding_add]

/-- Two lines with an empty one between them, in pieces that end elsewhere. -/
example : (indentLines (Code.mk ["a", "a\n", "", "\nb"])).render = "  aa\n\n  b" := by decide

end Code

end Phrasebook
