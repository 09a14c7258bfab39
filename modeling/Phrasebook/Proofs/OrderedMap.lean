import Phrasebook.OrderedMap

/-! # Entries of maps

What is under a key is an entry of the map (`mem_of_get?`), and in a map without repeated keys every
entry is what is under its key (`get?_of_mem`). Putting a value under a new key appends an entry
(`put_of_get?_eq_none`), and putting one under a present key changes no other entry. -/

namespace Phrasebook.OrderedMap

variable {κ ν : Type} [DecidableEq κ] {m : OrderedMap κ ν} {key : κ} {value : ν}

theorem mem_of_get? (h : m.get? key = some value) : (key, value) ∈ m := by
  induction m with
  | nil => cases h
  | cons entry rest ih =>
    obtain ⟨k, v⟩ := entry
    rw [get?] at h
    by_cases hk : k = key
    · rw [if_pos hk] at h
      cases h
      rw [hk]
      exact List.mem_cons_self
    · rw [if_neg hk] at h
      exact List.mem_cons_of_mem _ (ih h)

omit [DecidableEq κ] in
theorem mem_keys {entry : κ × ν} (h : entry ∈ m) : entry.1 ∈ m.keys :=
  List.mem_map.mpr ⟨entry, h, rfl⟩

omit [DecidableEq κ] in
theorem exists_mem (h : key ∈ m.keys) : ∃ value, (key, value) ∈ m := by
  obtain ⟨⟨k, v⟩, hmem, rfl⟩ := List.mem_map.mp h
  exact ⟨v, hmem⟩

theorem get?_eq_none : m.get? key = none ↔ key ∉ m.keys := by
  induction m with
  | nil => simp [get?, keys]
  | cons entry rest ih =>
    obtain ⟨k, v⟩ := entry
    unfold keys at ih ⊢
    rw [get?, List.map_cons, List.mem_cons, not_or, ← ih]
    by_cases hk : k = key
    · simp [hk]
    · simp [hk, Ne.symm hk]

/-- In a map without repeated keys an entry is what is under its key. -/
theorem get?_of_mem (hnodup : m.keys.Nodup) (h : (key, value) ∈ m) : m.get? key = some value := by
  induction m with
  | nil => cases h
  | cons entry rest ih =>
    obtain ⟨k, v⟩ := entry
    obtain ⟨hk, hrest⟩ := List.nodup_cons.mp hnodup
    rw [get?]
    rcases List.mem_cons.mp h with h | h
    · cases h
      exact if_pos rfl
    · have hne : k ≠ key := by
        rintro rfl
        exact hk (List.mem_map.mpr ⟨_, h, rfl⟩)
      rw [if_neg hne]
      exact ih hrest h

theorem put_of_get?_eq_none (h : m.get? key = none) : m.put key value = m ++ [(key, value)] := by
  induction m with
  | nil => rfl
  | cons entry rest ih =>
    obtain ⟨k, v⟩ := entry
    rw [get?] at h
    by_cases hk : k = key
    · rw [if_pos hk] at h
      cases h
    · rw [if_neg hk] at h
      rw [put, if_neg hk, ih h]
      rfl

/-- An entry of a map into which a value was put is the new one or an old one. -/
theorem mem_put {entry : κ × ν} (h : entry ∈ m.put key value) :
    entry = (key, value) ∨ entry ∈ m := by
  induction m with
  | nil =>
    rw [put, List.mem_singleton] at h
    exact Or.inl h
  | cons first rest ih =>
    obtain ⟨k, v⟩ := first
    rw [put] at h
    by_cases hk : k = key
    · rw [if_pos hk] at h
      rcases List.mem_cons.mp h with rfl | h
      · exact Or.inl (by rw [hk])
      · exact Or.inr (List.mem_cons_of_mem _ h)
    · rw [if_neg hk] at h
      rcases List.mem_cons.mp h with rfl | h
      · exact Or.inr List.mem_cons_self
      · exact (ih h).imp_right fun h => List.mem_cons_of_mem _ h

theorem forall_mem_put {P : ν → Prop} (h : ∀ p ∈ m, P p.2) (key : κ) (hvalue : P value) :
    ∀ p ∈ m.put key value, P p.2 := by
  intro p hp
  rcases mem_put hp with rfl | hp
  · exact hvalue
  · exact h p hp

/-- Putting a value under a present key changes nothing that does not tell the values apart. -/
theorem map_put {β : Type} {f : κ × ν → β} {old : ν} (h : m.get? key = some old)
    (hf : f (key, value) = f (key, old)) : (m.put key value).map f = m.map f := by
  induction m with
  | nil => cases h
  | cons entry rest ih =>
    obtain ⟨k, v⟩ := entry
    rw [get?] at h
    rw [put]
    by_cases hk : k = key
    · rw [if_pos hk] at h ⊢
      cases h
      subst hk
      rw [List.map_cons, List.map_cons, hf]
    · rw [if_neg hk] at h ⊢
      rw [List.map_cons, List.map_cons, ih h]

theorem keys_put_of_get?_eq_some {old : ν} (h : m.get? key = some old) :
    (m.put key value).keys = m.keys :=
  map_put h rfl

theorem nodup_put (h : m.keys.Nodup) (key : κ) (value : ν) : (m.put key value).keys.Nodup := by
  cases hget : m.get? key with
  | some old =>
    rw [keys_put_of_get?_eq_some hget]
    exact h
  | none =>
    have hkeys : (m.put key value).keys = m.keys ++ [key] := by
      rw [put_of_get?_eq_none hget]
      exact List.map_append
    rw [hkeys]
    refine List.nodup_append.mpr ⟨h, List.pairwise_singleton _ _, ?_⟩
    intro k hk other hother
    rw [List.mem_singleton.mp hother]
    rintro rfl
    exact get?_eq_none.mp hget hk

theorem get?_map_value {β : Type} (f : ν → β) (key : κ) (m : OrderedMap κ ν) :
    get? key (m.map fun entry => (entry.1, f entry.2)) = (m.get? key).map f := by
  induction m with
  | nil => rfl
  | cons entry rest ih =>
    obtain ⟨k, v⟩ := entry
    rw [List.map_cons, get?, get?, ih]
    by_cases hk : k = key
    · rw [if_pos hk, if_pos hk, Option.map_some]
    · rw [if_neg hk, if_neg hk]

/-- Values may be mapped before or after one of them is put. -/
theorem map_value_put {β : Type} (f : ν → β) (key : κ) (value : ν) (m : OrderedMap κ ν) :
    (m.put key value).map (fun entry => (entry.1, f entry.2)) =
      put key (f value) (m.map fun entry => (entry.1, f entry.2)) := by
  induction m with
  | nil => rfl
  | cons entry rest ih =>
    obtain ⟨k, v⟩ := entry
    rw [put, List.map_cons, put]
    by_cases hk : k = key
    · rw [if_pos hk, if_pos hk, List.map_cons]
    · rw [if_neg hk, if_neg hk, List.map_cons, ih]

/-- In a map without repeated keys the entries are what is under their keys. -/
theorem mem_iff_get? (hnodup : m.keys.Nodup) : (key, value) ∈ m ↔ m.get? key = some value :=
  ⟨get?_of_mem hnodup, mem_of_get?⟩

/-- In a map without repeated keys, putting a value leaves the entries of the other keys. -/
theorem mem_put_iff (hnodup : m.keys.Nodup) {entry : κ × ν} :
    entry ∈ m.put key value ↔ entry = (key, value) ∨ entry.1 ≠ key ∧ entry ∈ m := by
  obtain ⟨k, v⟩ := entry
  rw [mem_iff_get? (nodup_put hnodup key value), get?_put, mem_iff_get? hnodup]
  by_cases hk : key = k
  · subst hk
    rw [if_pos rfl]
    constructor
    · rintro ⟨⟩
      exact Or.inl rfl
    · rintro (hnew | ⟨hne, -⟩)
      · cases hnew
        rfl
      · exact absurd rfl hne
  · rw [if_neg hk]
    constructor
    · intro h
      exact Or.inr ⟨Ne.symm hk, h⟩
    · rintro (hnew | ⟨-, h⟩)
      · cases hnew
        exact absurd rfl hk
      · exact h

theorem mem_keys_iff : key ∈ m.keys ↔ ∃ value, m.get? key = some value := by
  constructor
  · intro h
    cases hget : m.get? key with
    | none => exact absurd h (get?_eq_none.mp hget)
    | some value => exact ⟨value, rfl⟩
  · rintro ⟨value, hget⟩
    exact mem_keys (mem_of_get? hget)

end Phrasebook.OrderedMap
