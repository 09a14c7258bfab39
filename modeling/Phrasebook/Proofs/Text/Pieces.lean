import Mathlib.Tactic.SplitIfs
import Phrasebook.Text.Basic

/-! # Pieces of texts

Beginnings and endings that are taken off a text, and the pieces between the occurrences of a code
point: a text is its pieces joined again (`Text.join_split`), and pieces without the code point are
told apart after they were joined (`Text.split_join`). -/

namespace Phrasebook.Text

/-! ### Beginnings -/

theorem dropBeginning?_append (beginning t : Text) :
    dropBeginning? beginning (beginning ++ t) = some t := by
  have hstarts : startsWith (beginning ++ t) beginning = true :=
    List.isPrefixOf_iff_prefix.mpr (List.prefix_append beginning t)
  unfold dropBeginning?
  rw [if_pos hstarts, List.drop_left]

theorem dropBeginning?_eq_some {beginning t rest : Text} :
    dropBeginning? beginning t = some rest ↔ t = beginning ++ rest := by
  constructor
  · intro h
    unfold dropBeginning? at h
    split_ifs at h with hstarts
    obtain ⟨others, rfl⟩ := List.isPrefixOf_iff_prefix.mp hstarts
    rw [List.drop_left] at h
    cases h
    rfl
  · rintro rfl
    exact dropBeginning?_append beginning rest

theorem dropBeginning?_cons_of_ne {c d : CodePoint} (h : c ≠ d) (beginning t : Text) :
    dropBeginning? (c :: beginning) (d :: t) = none := by
  rw [Option.eq_none_iff_forall_ne_some]
  intro rest hrest
  exact h (List.cons.inj (dropBeginning?_eq_some.mp hrest)).1.symm

/-- What stands between a beginning and an end. -/
def between? (beginning ending t : Text) : Option Text :=
  (dropBeginning? beginning t).bind fun rest =>
    if rest.endsWith ending then some (rest.take (rest.length - ending.length)) else none

theorem between?_append (beginning ending t : Text) :
    between? beginning ending (beginning ++ t ++ ending) = some t := by
  have hends : endsWith (t ++ ending) ending = true :=
    List.isSuffixOf_iff_suffix.mpr (List.suffix_append t ending)
  unfold between?
  rw [List.append_assoc, dropBeginning?_append, Option.bind_some, if_pos hends, List.length_append,
    Nat.add_sub_cancel, List.take_left]

theorem between?_of_ne {c d : CodePoint} (h : c ≠ d) (beginning ending t : Text) :
    between? (c :: beginning) ending (d :: t) = none := by
  unfold between?
  rw [dropBeginning?_cons_of_ne h, Option.bind_none]

/-! ### Pieces -/

theorem split_of_not_mem {separator : CodePoint} {t : Text} (h : separator ∉ t) :
    split separator t = [t] := by
  induction t with
  | nil => rfl
  | cons c t ih =>
    obtain ⟨hc, ht⟩ := not_or.mp (mt List.mem_cons.mpr h)
    rw [split, if_neg (Ne.symm hc), ih ht]

theorem split_append {separator : CodePoint} {t : Text} (h : separator ∉ t) (rest : Text) :
    split separator (t ++ separator :: rest) = t :: split separator rest := by
  induction t with
  | nil => rw [List.nil_append, split, if_pos rfl]
  | cons c t ih =>
    obtain ⟨hc, ht⟩ := not_or.mp (mt List.mem_cons.mpr h)
    rw [List.cons_append, split, if_neg (Ne.symm hc), ih ht]

/-- Pieces that are joined by a code point that is in none of them are told apart. -/
theorem split_join {separator : CodePoint} {pieces : List Text} (hne : pieces ≠ [])
    (h : ∀ piece ∈ pieces, separator ∉ piece) :
    split separator (join [separator] pieces) = pieces := by
  unfold join
  induction pieces with
  | nil => exact absurd rfl hne
  | cons piece rest ih =>
    obtain ⟨hpiece, hrest⟩ := List.forall_mem_cons.mp h
    cases rest with
    | nil => rw [List.intercalate_singleton, split_of_not_mem hpiece]
    | cons next others =>
      rw [List.intercalate_cons_cons, List.append_assoc, List.singleton_append,
        split_append hpiece, ih (List.cons_ne_nil _ _) hrest]

theorem split_ne_nil (separator : CodePoint) (t : Text) : split separator t ≠ [] := by
  cases t with
  | nil => exact List.cons_ne_nil _ _
  | cons c t =>
    rw [split]
    split_ifs
    · exact List.cons_ne_nil _ _
    · split
      · exact List.cons_ne_nil _ _
      · exact List.cons_ne_nil _ _

theorem not_mem_of_mem_split {separator : CodePoint} {t piece : Text}
    (h : piece ∈ split separator t) : separator ∉ piece := by
  induction t generalizing piece with
  | nil =>
    obtain rfl := List.mem_singleton.mp h
    exact List.not_mem_nil
  | cons c t ih =>
    unfold split at h
    split_ifs at h with hc
    · rcases List.mem_cons.mp h with rfl | h
      · exact List.not_mem_nil
      · exact ih h
    · split at h
      · obtain rfl := List.mem_singleton.mp h
        simpa using Ne.symm hc
      next piece pieces hs =>
        rcases List.mem_cons.mp h with rfl | h
        · have hpiece : separator ∉ piece := ih (by rw [hs]; exact List.mem_cons_self)
          simpa [Ne.symm hc] using hpiece
        · exact ih (by rw [hs]; exact List.mem_cons_of_mem _ h)

/-- **The pieces of a text, joined again, are the text.** -/
theorem join_split (separator : CodePoint) (t : Text) :
    join [separator] (split separator t) = t := by
  induction t with
  | nil => rfl
  | cons c t ih =>
    obtain ⟨piece, pieces, hsplit⟩ := List.exists_cons_of_ne_nil (split_ne_nil separator t)
    unfold join at ih ⊢
    unfold split
    rw [hsplit] at ih ⊢
    split
    next hc =>
      rw [List.intercalate_cons_cons, ih, hc]
      rfl
    next =>
      rw [← ih]
      cases pieces with
      | nil => simp only [List.intercalate_singleton]
      | cons next others => simp only [List.intercalate_cons_cons, List.cons_append]

/-! ### Joined texts -/

/-- **A property of texts that is kept when texts are put one after the other** is one of joined
texts. -/
theorem join_induction {P : Text → Prop} (hnil : P [])
    (happend : ∀ {t u : Text}, P t → P u → P (t ++ u)) {separator : Text} (hseparator : P separator)
    {parts : List Text} (h : ∀ t ∈ parts, P t) : P (join separator parts) := by
  unfold join
  induction parts with
  | nil => exact hnil
  | cons part rest ih =>
    obtain ⟨hpart, hrest⟩ := List.forall_mem_cons.mp h
    cases rest with
    | nil =>
      rw [List.intercalate_singleton]
      exact hpart
    | cons next others =>
      rw [List.intercalate_cons_cons]
      exact happend (happend hpart hseparator) (ih hrest)

theorem length_le_length_join {texts : List Text} (h : ∀ t ∈ texts, t ≠ []) (separator : Text) :
    texts.length ≤ (join separator texts).length := by
  unfold join
  induction texts with
  | nil => exact Nat.zero_le _
  | cons t rest ih =>
    obtain ⟨ht, hrest⟩ := List.forall_mem_cons.mp h
    have hpos := List.length_pos_iff.mpr ht
    have hlength := ih hrest
    cases rest with
    | nil =>
      rw [List.intercalate_singleton]
      exact hpos
    | cons next others =>
      rw [List.intercalate_cons_cons, List.length_append, List.length_append]
      simp only [List.length_cons] at hlength ⊢
      omega

/-- A space after each comma belongs to the next text as well. -/
theorem space_cons_join (t : Text) (rest : List Text) :
    CodePoint.space :: join ", " (t :: rest) =
      join [CodePoint.ofChar ','] ((t :: rest).map (CodePoint.space :: ·)) := by
  unfold join
  induction rest generalizing t with
  | nil => rw [List.map_cons, List.map_nil, List.intercalate_singleton, List.intercalate_singleton]
  | cons next rest ih =>
    have htail := ih next
    rw [List.map_cons] at htail
    rw [List.map_cons, List.map_cons, List.intercalate_cons_cons, List.intercalate_cons_cons,
      ← htail]
    simp only [List.append_assoc, List.cons_append]
    rfl

end Phrasebook.Text
