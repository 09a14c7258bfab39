/-! # Sorted lists without repetition

The members of a list, each once and in increasing order. The order is any strict linear one; for
texts it is the order by code point, for paths the order by parts. -/

namespace Phrasebook.Sorted

variable {α : Type} [LT α] [DecidableLT α] [DecidableEq α]

/-- A member put into its place among sorted ones, unless it is there already. -/
def insert (a : α) : List α → List α
  | [] => [a]
  | b :: rest => if a < b then a :: b :: rest else if a = b then b :: rest else b :: insert a rest

/-- **The members of a list**, each once and in increasing order. -/
def ofList (members : List α) : List α := members.foldr insert []

theorem mem_insert {a b : α} {sorted : List α} : b ∈ insert a sorted ↔ b = a ∨ b ∈ sorted := by
  induction sorted with
  | nil => simp [insert]
  | cons first rest ih =>
    unfold insert
    split
    · simp
    · split
      · rename_i h
        subst h
        simp
      · simp only [List.mem_cons, ih]
        grind

theorem mem_ofList {a : α} {members : List α} : a ∈ ofList members ↔ a ∈ members := by
  induction members with
  | nil => simp [ofList]
  | cons first rest ih =>
    simp only [ofList, List.foldr_cons, List.mem_cons] at ih ⊢
    rw [mem_insert, ih]

variable [Trans (· < · : α → α → Prop) (· < · : α → α → Prop) (· < · : α → α → Prop)]
  [Std.Trichotomous (· < · : α → α → Prop)]

theorem pairwise_insert {a : α} {sorted : List α} (h : sorted.Pairwise (· < ·)) :
    (insert a sorted).Pairwise (· < ·) := by
  induction sorted with
  | nil => simp [insert]
  | cons first rest ih =>
    obtain ⟨hfirst, hrest⟩ := List.pairwise_cons.mp h
    unfold insert
    split
    · rename_i hlt
      refine List.pairwise_cons.mpr ⟨fun b hb => ?_, h⟩
      rcases List.mem_cons.mp hb with rfl | hb
      · exact hlt
      · exact Trans.trans hlt (hfirst b hb)
    · split
      · exact h
      · rename_i hlt hne
        refine List.pairwise_cons.mpr ⟨fun b hb => ?_, ih hrest⟩
        rcases mem_insert.mp hb with rfl | hb
        · by_cases hgt : first < b
          · exact hgt
          · exact absurd (Std.Trichotomous.trichotomous b first hlt hgt) hne
        · exact hfirst b hb

/-- The members come in increasing order, and each once. -/
theorem pairwise_ofList (members : List α) : (ofList members).Pairwise (· < ·) := by
  induction members with
  | nil => simp [ofList]
  | cons first rest ih => exact pairwise_insert ih

end Phrasebook.Sorted
