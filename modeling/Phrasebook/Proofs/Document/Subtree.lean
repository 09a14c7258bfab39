import Phrasebook.Document.Visit
import Phrasebook.Proofs.Document.KeyPath

/-! # Values in a tree

Where the values in a tree stand (`Datum.At`), and the list of all of them with their paths
(`Datum.subtrees`, `Datum.mem_subtrees`). -/

namespace Phrasebook.Datum

/-- **A value stands in a tree** at the end of some steps. -/
inductive At : Datum Foreign → List Segment → Datum Foreign → Prop where
  | here (tree : Datum Foreign) : At tree [] tree
  | item {items : List (Datum Foreign)} {position : Nat} {item value : Datum Foreign}
      {steps : List Segment} (hitem : items[position]? = some item) (h : At item steps value) :
      At (.list items) (.name (Numeral.ofNat position) :: steps) value
  | entry {entries : List (DatumKey × Datum Foreign)} {key : DatumKey}
      {child value : Datum Foreign} {steps : List Segment} (hentry : (key, child) ∈ entries)
      (h : At child steps value) : At (.map entries) (.name key.toText :: steps) value

/-- The steps to a value are names. -/
theorem At.names {tree value : Datum Foreign} {steps : List Segment} (h : tree.At steps value) :
    ∀ s ∈ steps, ∃ name, s = .name name := by
  induction h with
  | here tree => exact List.forall_mem_nil _
  | item hitem h ih => exact List.forall_mem_cons.mpr ⟨⟨_, rfl⟩, ih⟩
  | entry hentry h ih => exact List.forall_mem_cons.mpr ⟨⟨_, rfl⟩, ih⟩

mutual

/-- The values in a tree, itself included, with their paths. -/
def subtrees (path : KeyPath) : Datum Foreign → List (KeyPath × Datum Foreign)
  | .map entries => (path, .map entries) :: subtreesOfEntries path entries
  | .list items => (path, .list items) :: subtreesOfItems path 0 items
  | tree => [(path, tree)]

/-- The values in the items of a list from a position on. -/
def subtreesOfItems (path : KeyPath) (position : Nat) :
    List (Datum Foreign) → List (KeyPath × Datum Foreign)
  | [] => []
  | item :: rest =>
    subtrees (path.child (.name (Numeral.ofNat position))) item ++
      subtreesOfItems path (position + 1) rest

/-- The values in the entries of a mapping. -/
def subtreesOfEntries (path : KeyPath) :
    List (DatumKey × Datum Foreign) → List (KeyPath × Datum Foreign)
  | [] => []
  | (key, value) :: rest =>
    subtrees (path.child (.name key.toText)) value ++ subtreesOfEntries path rest

end

theorem subtrees_of_not_container {tree : Datum Foreign} (h : tree.isContainer = false)
    (path : KeyPath) : tree.subtrees path = [(path, tree)] := by
  cases tree with
  | map entries => cases h
  | list items => cases h
  | _ => rw [subtrees] <;> nofun

/-- The only value in a tree that is no container is itself. -/
theorem at_of_not_container {tree value : Datum Foreign} {steps : List Segment}
    (h : tree.isContainer = false) : tree.At steps value ↔ steps = [] ∧ value = tree := by
  constructor
  · intro hat
    cases hat with
    | here => exact ⟨rfl, rfl⟩
    | item hitem hat => cases h
    | entry hentry hat => cases h
  · rintro ⟨rfl, rfl⟩
    exact .here _

theorem At.exists_names {tree value : Datum Foreign} {steps : List Segment}
    (h : tree.At steps value) : ∃ names : List Text, steps = names.map .name := by
  induction h with
  | here tree => exact ⟨[], rfl⟩
  | @item items position item value steps hitem h ih =>
    obtain ⟨names, rfl⟩ := ih
    exact ⟨Numeral.ofNat position :: names, rfl⟩
  | @entry entries key child value steps hentry h ih =>
    obtain ⟨names, rfl⟩ := ih
    exact ⟨key.toText :: names, rfl⟩

section Subtrees
variable {q : KeyPath} {value : Datum Foreign}

theorem mem_subtrees_of_not_container {tree : Datum Foreign} (h : tree.isContainer = false)
    (path : KeyPath) : (q, value) ∈ tree.subtrees path ↔
      ∃ steps, tree.At steps value ∧ q.segments = path.segments ++ steps := by
  rw [subtrees_of_not_container h, List.mem_singleton]
  constructor
  · intro heq
    cases heq
    exact ⟨[], .here _, (List.append_nil _).symm⟩
  · rintro ⟨steps, hat, hq⟩
    obtain ⟨rfl, rfl⟩ := (at_of_not_container h).mp hat
    rw [List.append_nil] at hq
    rw [KeyPath.ext hq]

mutual

/-- **The list of the values in a tree** has each value at its path. -/
theorem mem_subtrees : ∀ (tree : Datum Foreign) (path : KeyPath),
    (q, value) ∈ tree.subtrees path ↔
      ∃ steps, tree.At steps value ∧ q.segments = path.segments ++ steps
  | .map entries, path => by
    rw [subtrees, List.mem_cons, mem_subtreesOfEntries entries path]
    constructor
    · rintro (heq | ⟨key, child, steps, hentry, hat, hq⟩)
      · cases heq
        exact ⟨[], .here _, (List.append_nil _).symm⟩
      · exact ⟨_, .entry hentry hat, hq⟩
    · rintro ⟨steps, hat, hq⟩
      cases hat with
      | here =>
        rw [List.append_nil] at hq
        exact Or.inl (by rw [KeyPath.ext hq])
      | entry hentry hat => exact Or.inr ⟨_, _, _, hentry, hat, hq⟩
  | .list items, path => by
    rw [subtrees, List.mem_cons, mem_subtreesOfItems items path 0]
    simp only [Nat.zero_add]
    constructor
    · rintro (heq | ⟨position, item, steps, hitem, hat, hq⟩)
      · cases heq
        exact ⟨[], .here _, (List.append_nil _).symm⟩
      · exact ⟨_, .item hitem hat, hq⟩
    · rintro ⟨steps, hat, hq⟩
      cases hat with
      | here =>
        rw [List.append_nil] at hq
        exact Or.inl (by rw [KeyPath.ext hq])
      | item hitem hat => exact Or.inr ⟨_, _, _, hitem, hat, hq⟩
  | .text _, path => mem_subtrees_of_not_container rfl path
  | .null, path => mem_subtrees_of_not_container rfl path
  | .bool _, path => mem_subtrees_of_not_container rfl path
  | .number _, path => mem_subtrees_of_not_container rfl path
  | .tuple _, path => mem_subtrees_of_not_container rfl path
  | .other _, path => mem_subtrees_of_not_container rfl path

theorem mem_subtreesOfItems : ∀ (items : List (Datum Foreign)) (path : KeyPath) (position : Nat),
    (q, value) ∈ subtreesOfItems path position items ↔
      ∃ i item steps, items[i]? = some item ∧ item.At steps value ∧
        q.segments = path.segments ++ .name (Numeral.ofNat (position + i)) :: steps
  | [], path, position => by
    rw [subtreesOfItems]
    constructor
    · nofun
    · rintro ⟨i, item, steps, hitem, -⟩
      cases hitem
  | item :: rest, path, position => by
    rw [subtreesOfItems, List.mem_append, mem_subtrees item, mem_subtreesOfItems rest]
    simp only [KeyPath.segments_child, List.append_assoc, List.singleton_append]
    constructor
    · rintro (⟨steps, hat, hq⟩ | ⟨i, other, steps, hitem, hat, hq⟩)
      · exact ⟨0, item, steps, rfl, hat, hq⟩
      · refine ⟨i + 1, other, steps, hitem, hat, ?_⟩
        rwa [Nat.add_assoc, Nat.add_comm 1 i] at hq
    · rintro ⟨i, other, steps, hitem, hat, hq⟩
      cases i with
      | zero =>
        cases hitem
        exact Or.inl ⟨steps, hat, hq⟩
      | succ i =>
        refine Or.inr ⟨i, other, steps, hitem, hat, ?_⟩
        rwa [Nat.add_assoc, Nat.add_comm 1 i]

theorem mem_subtreesOfEntries : ∀ (entries : List (DatumKey × Datum Foreign)) (path : KeyPath),
    (q, value) ∈ subtreesOfEntries path entries ↔
      ∃ key child steps, (key, child) ∈ entries ∧ child.At steps value ∧
        q.segments = path.segments ++ .name key.toText :: steps
  | [], path => by
    rw [subtreesOfEntries]
    constructor
    · nofun
    · rintro ⟨key, child, steps, hentry, -⟩
      cases hentry
  | (key, child) :: rest, path => by
    rw [subtreesOfEntries, List.mem_append, mem_subtrees child, mem_subtreesOfEntries rest]
    simp only [KeyPath.segments_child, List.append_assoc, List.singleton_append]
    constructor
    · rintro (⟨steps, hat, hq⟩ | ⟨name, other, steps, hentry, hat, hq⟩)
      · exact ⟨key, child, steps, List.mem_cons_self, hat, hq⟩
      · exact ⟨name, other, steps, List.mem_cons_of_mem _ hentry, hat, hq⟩
    · rintro ⟨name, other, steps, hentry, hat, hq⟩
      rcases List.mem_cons.mp hentry with heq | hentry
      · cases heq
        exact Or.inl ⟨steps, hat, hq⟩
      · exact Or.inr ⟨name, other, steps, hentry, hat, hq⟩

end

theorem mem_subtrees_root {tree : Datum Foreign} :
    (q, value) ∈ tree.subtrees .root ↔ tree.At q.segments value := by
  rw [mem_subtrees]
  constructor
  · rintro ⟨steps, hat, hq⟩
    have hsteps : q.segments = steps := hq
    rwa [hsteps]
  · intro hat
    exact ⟨q.segments, hat, rfl⟩

end Subtrees

end Phrasebook.Datum
