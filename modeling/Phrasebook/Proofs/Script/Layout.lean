import Phrasebook.Proofs.Script.Object
import Phrasebook.Script.Value

/-! # The layout of literals

Object and array literals have one entry per line. At any indentation such a literal is its opening
bracket, its entries with commas and blanks between them, and its closing bracket, with a line feed
and spaces before the first entry and before the closing bracket (`padAfterBreaks_entries`). -/

namespace Phrasebook

/-- A text of spaces. -/
def Spaces (t : Text) : Prop := ∀ c ∈ t, c = CodePoint.space

theorem Spaces.append_indentUnit {pad : Text} (h : Spaces pad) : Spaces (pad ++ Code.indentUnit) :=
  Script.eq_space_of_mem_append h

namespace Code

/-! ### Entries -/

/-- The texts of the entries of a literal with a comma and blanks between them. -/
def entriesText (before : Text) (texts : List Text) : Text :=
  Text.join (CodePoint.ofChar ',' :: before) texts

theorem entriesText_singleton (before t : Text) : entriesText before [t] = t :=
  List.append_nil t

theorem entriesText_cons_cons (before t u : Text) (texts : List Text) :
    entriesText before (t :: u :: texts) =
      t ++ CodePoint.ofChar ',' :: (before ++ entriesText before (u :: texts)) := by
  have hjoin : entriesText before (t :: u :: texts) =
      t ++ (CodePoint.ofChar ',' :: before) ++ entriesText before (u :: texts) :=
    List.intercalate_cons_cons
  rw [hjoin, List.append_assoc, List.cons_append]

theorem prefix_entriesText (before t : Text) (texts : List Text) :
    t <+: entriesText before (t :: texts) := by
  cases texts with
  | nil => exact ⟨[], (List.append_nil t).trans (entriesText_singleton before t).symm⟩
  | cons u texts =>
    rw [entriesText_cons_cons]
    exact List.prefix_append _ _

theorem padAfterBreaks_join (pad separator : Text) (parts : List Text) :
    padAfterBreaks pad (Text.join separator parts) =
      Text.join (padAfterBreaks pad separator) (parts.map (padAfterBreaks pad)) := by
  unfold Text.join
  induction parts with
  | nil => rfl
  | cons part rest ih =>
    cases rest with
    | nil => rw [List.map_singleton, List.intercalate_singleton, List.intercalate_singleton]
    | cons next others =>
      rw [List.map_cons] at ih
      rw [List.map_cons, List.map_cons, List.intercalate_cons_cons, List.intercalate_cons_cons, ← ih,
        padAfterBreaks_append, padAfterBreaks_append]

/-- What stands before an entry of an indented literal. -/
def entryGap (pad : Text) : Text := CodePoint.lf :: (pad ++ indentUnit)

/-- What stands after the last entry of an indented literal. -/
def lastGap (pad : Text) : Text := CodePoint.lf :: pad

/-- **The entries of a literal** between its brackets, as they stand in indented script. -/
theorem padAfterBreaks_entries {opening closing : CodePoint} (hopening : opening ≠ CodePoint.lf)
    (hclosing : closing ≠ CodePoint.lf) (pad : Text) (texts : List Text) :
    padAfterBreaks pad (opening :: firstBreak ++ Text.join entryBreak texts ++
        [CodePoint.lf, closing]) =
      opening :: (entryGap pad ++ (entriesText (entryGap pad) (texts.map (padAfterBreaks pad)) ++
        (lastGap pad ++ [closing]))) := by
  have hfirst : padAfterBreaks pad (opening :: firstBreak) = opening :: entryGap pad := by
    have hsingle : Unbroken [opening] := by simpa [Unbroken] using Ne.symm hopening
    rw [← List.singleton_append, hsingle.padAfterBreaks_append]
    rfl
  have hbreak : padAfterBreaks pad entryBreak = CodePoint.ofChar ',' :: entryGap pad := rfl
  have hlast : padAfterBreaks pad [CodePoint.lf, closing] = lastGap pad ++ [closing] := by
    have hsingle : Unbroken [closing] := by simpa [Unbroken] using Ne.symm hclosing
    have hpadded := hsingle.padAfterBreaks pad
    have hlf : padAfterBreaks pad [CodePoint.lf] = lastGap pad := List.append_nil _
    rw [← List.singleton_append, padAfterBreaks_append, hpadded, hlf]
  rw [padAfterBreaks_append, padAfterBreaks_append, padAfterBreaks_join, hfirst, hbreak, hlast]
  simp only [entriesText, List.append_assoc, List.cons_append]

/-! ### Array literals -/

theorem render_arrayScript (f : Fragment) (rest : List Fragment) :
    (Value.arrayScript (f :: rest)).render = CodePoint.ofChar '[' :: firstBreak ++
      Text.join entryBreak ((f :: rest).map fun f => (indent f).render) ++
        [CodePoint.lf, CodePoint.ofChar ']'] := by
  unfold Value.arrayScript
  rw [render_concat]
  simp only [List.map_cons, List.map_nil, List.flatten_cons, List.flatten_nil, List.append_nil,
    Fragment.render_plain, Fragment.render_code, render_join, List.map_map, List.append_assoc]
  rfl

/-- An item as it stands in an indented array literal. -/
theorem padAfterBreaks_indent (pad : Text) (f : Fragment) :
    padAfterBreaks pad (indent f).render = padAfterBreaks (pad ++ indentUnit) f.render := by
  have hunit : Unbroken indentUnit := by decide
  have hindent : (indent f).render = padAfterBreaks indentUnit f.render := render_indent f 1
  rw [hindent, padAfterBreaks_padAfterBreaks hunit]

end Code

end Phrasebook
