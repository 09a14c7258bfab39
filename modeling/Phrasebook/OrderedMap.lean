/-! # Maps in insertion order

A map is the list of its entries in the order in which the keys were first put. Putting a value
under a present key replaces the value and keeps the place. -/

namespace Phrasebook

/-- **A map that remembers the order of its keys.** -/
abbrev OrderedMap (κ ν : Type) := List (κ × ν)

namespace OrderedMap

variable {κ ν : Type} [DecidableEq κ]

/-- The value under a key. -/
def get? (key : κ) : OrderedMap κ ν → Option ν
  | [] => none
  | (k, v) :: rest => if k = key then some v else get? key rest

/-- Puts a value under a key: in the key's place if it has one, at the end if not. -/
def put (key : κ) (value : ν) : OrderedMap κ ν → OrderedMap κ ν
  | [] => [(key, value)]
  | (k, v) :: rest => if k = key then (k, value) :: rest else (k, v) :: put key value rest

/-- The keys in the order in which they were first put. -/
def keys {κ ν : Type} (m : OrderedMap κ ν) : List κ := m.map (·.1)

/-- The map of a list of entries, put one after the other. -/
def ofList (entries : List (κ × ν)) : OrderedMap κ ν := entries.foldl (fun m e => m.put e.1 e.2) []

theorem get?_put (key other : κ) (value : ν) (m : OrderedMap κ ν) :
    (m.put key value).get? other = if key = other then some value else m.get? other := by
  induction m with
  | nil => simp [put, get?]
  | cons entry rest ih =>
    obtain ⟨k, v⟩ := entry
    by_cases hk : k = key
    · subst hk
      by_cases ho : k = other <;> simp [put, get?, ho]
    · by_cases ho : k = other
      · subst ho
        simp [put, get?, hk, Ne.symm hk]
      · simp [put, get?, hk, ho, ih]

end OrderedMap

end Phrasebook
