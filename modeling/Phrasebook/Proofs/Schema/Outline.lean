import Mathlib.Data.List.Nodup
import Mathlib.Tactic.SplitIfs
import Phrasebook.Proofs.Document.KeyPath
import Phrasebook.Proofs.OrderedMap
import Phrasebook.Proofs.Schema.Arena

/-! # The tree of keys as an outline

A tree is *rooted* if every node is where its path leads and no node has two children of one name.
Appending a child keeps a tree rooted (`Rooted.addChild`). In a rooted tree every node but the root
has exactly one parent (`Rooted.exists_parent`, `Rooted.parent_unique`), and the outline shows every
node with all of its children (`Rooted.outlineAt_interior`). Its leaves are those of the tree, each
once (`Rooted.mem_leaves`, `Rooted.nodup_leaves`). -/

namespace Phrasebook.Arena

/-- **A rooted tree**: a sound one in which every node is where its path leads, and the children of
a node have different names. -/
structure Rooted (a : Arena) : Prop extends Sound a where
  reached : ∀ {id : Nat} {n : Node}, a.node? id = some n →
    a.follow? Arena.root n.path.segments = some id
  nodup : ∀ {id : Nat} {n : Node}, a.node? id = some n → n.children.keys.Nodup

theorem rooted_empty : Rooted {} where
  toSound := sound_empty
  reached := by
    intro id n hn
    cases id with
    | zero =>
      cases hn
      rfl
    | succ id => cases hn
  nodup := by
    intro id n hn
    cases id with
    | zero =>
      cases hn
      exact List.nodup_nil
    | succ id => cases hn

/-! ### What is found at a path -/

theorem Sound.path_of_find? {a : Arena} (h : a.Sound) {p : KeyPath} {n : Node}
    (hn : a.find? p = some n) : n.path = p := by
  obtain ⟨id, hid, hnode⟩ := Option.bind_eq_some_iff.mp hn
  obtain ⟨m, hm, hpath⟩ := h.node?_of_follow? hid
  rw [hnode] at hm
  cases hm
  cases hp : n.path
  cases p
  rw [hp] at hpath
  exact congrArg KeyPath.mk hpath

theorem Sound.find?_leaf {a : Arena} (h : a.Sound) {p : KeyPath} :
    a.find? p = some (.leaf p) ↔ a.kind? p = some .leaf := by
  unfold kind?
  constructor
  · intro hleaf
    rw [hleaf]
    rfl
  · intro hkind
    obtain ⟨n, hn, hleaf⟩ := Option.map_eq_some_iff.mp hkind
    have hpath := h.path_of_find? hn
    cases n with
    | leaf path =>
      obtain rfl : path = p := hpath
      exact hn
    | interior path children => cases hleaf

theorem Sound.find?_interior {a : Arena} (h : a.Sound) {p : KeyPath} :
    (∃ children, a.find? p = some (.interior p children)) ↔ a.kind? p = some .interior := by
  unfold kind?
  constructor
  · rintro ⟨children, hinterior⟩
    rw [hinterior]
    rfl
  · intro hkind
    obtain ⟨n, hn, hinterior⟩ := Option.map_eq_some_iff.mp hkind
    have hpath := h.path_of_find? hn
    cases n with
    | leaf path => cases hinterior
    | interior path children =>
      obtain rfl : path = p := hpath
      exact ⟨children, hn⟩

theorem Rooted.find?_path {a : Arena} (h : a.Rooted) {id : Nat} {n : Node}
    (hn : a.node? id = some n) : a.find? n.path = some n := by
  unfold find?
  rw [h.reached hn, Option.bind_some, hn]

/-! ### Appending a child -/

section AddChild
variable {a : Arena} {parent : Nat} {path : KeyPath} {segment : Segment} {child : Node}

/-- A node after a child was appended is the child, or it was there before. Only its parent has got
a child more. -/
theorem Appendable.node?_eq_some (hf : a.Appendable parent path segment child) {id : Nat} {n : Node}
    (hn : (a.addChild parent segment child).1.node? id = some n) :
    (id = a.size ∧ n = child) ∨ ∃ old, a.node? id = some old ∧ n.path = old.path ∧
      (n.children = old.children ∨ n.children = old.children.put segment a.size) := by
  rw [node?_addChild hf.lt_size] at hn
  split_ifs at hn with hsize hid
  · cases hn
    exact Or.inl ⟨hsize, rfl⟩
  · obtain ⟨old, hold, rfl⟩ := Option.map_eq_some_iff.mp hn
    refine Or.inr ⟨old, hold, old.path_withChild segment a.size, ?_⟩
    cases old with
    | leaf path => exact Or.inl rfl
    | interior path children => exact Or.inr rfl
  · exact Or.inr ⟨n, hn, rfl, Or.inl rfl⟩

/-- **A rooted tree stays rooted** when a child is appended. -/
theorem Rooted.addChild (h : a.Rooted) (hf : a.Appendable parent path segment child) :
    (a.addChild parent segment child).1.Rooted := by
  have hbefore : a.follow? Arena.root (path.segments ++ [segment]) = none := by
    rw [follow?_concat, hf.reached, Option.bind_some, hf.child?_eq_none]
  refine ⟨Sound.addChild hf h.toSound, ?_, ?_⟩
  · intro id n hn
    rw [follow?_addChild hf h.toSound]
    rcases hf.node?_eq_some hn with ⟨rfl, rfl⟩ | ⟨old, hold, hpath, -⟩
    · rw [hf.path_child, KeyPath.segments_child, if_pos rfl]
    · have hreached := h.reached hold
      have hne : old.path.segments ≠ path.segments ++ [segment] := by
        intro he
        rw [he, hbefore] at hreached
        cases hreached
      rw [hpath, if_neg hne, hreached]
  · intro id n hn
    rcases hf.node?_eq_some hn with ⟨-, rfl⟩ | ⟨old, hold, -, hchildren | hchildren⟩
    · rw [hf.children]
      exact List.nodup_nil
    · rw [hchildren]
      exact h.nodup hold
    · rw [hchildren]
      exact OrderedMap.nodup_put (h.nodup hold) segment a.size

end AddChild

/-! ### Parents -/

section Rooted
variable {a : Arena} (h : a.Rooted)
include h

theorem Rooted.mem_children {id child : Nat} {n : Node} {segment : Segment}
    (hn : a.node? id = some n) :
    (segment, child) ∈ n.children ↔ a.child? id segment = some child := by
  unfold child?
  rw [hn, Option.bind_some]
  exact OrderedMap.mem_iff_get? (h.nodup hn)

theorem Rooted.child_spec {id child : Nat} {n : Node} {segment : Segment}
    (hn : a.node? id = some n) (hchild : (segment, child) ∈ n.children) :
    id < child ∧ ∃ m, a.node? child = some m ∧ m.path = n.path.child segment :=
  h.child hn (OrderedMap.get?_of_mem (h.nodup hn) hchild)

/-- **Every node but the root is the child of a node with a lower number**, and its path is that of
the parent and one step more. -/
theorem Rooted.exists_parent {id : Nat} {m : Node} (hm : a.node? id = some m)
    (hroot : id ≠ Arena.root) :
    ∃ parent n segment, a.node? parent = some n ∧ (segment, id) ∈ n.children ∧ parent < id ∧
      m.path = n.path.child segment := by
  have hreached := h.reached hm
  have hne : m.path ≠ .root := by
    intro hpath
    rw [hpath] at hreached
    cases hreached
    exact hroot rfl
  obtain ⟨segment, -, hpath⟩ := KeyPath.exists_eq_child hne
  rw [hpath, KeyPath.segments_child, follow?_concat] at hreached
  obtain ⟨parent, -, hchild⟩ := Option.bind_eq_some_iff.mp hreached
  obtain ⟨n, hn, hget⟩ := child?_eq_some hchild
  obtain ⟨hlt, m', hm', hmpath⟩ := h.child hn hget
  rw [hm] at hm'
  cases hm'
  exact ⟨parent, n, segment, hn, OrderedMap.mem_of_get? hget, hlt, hmpath⟩

/-- **A node has one parent**, and stands under one name there. -/
theorem Rooted.parent_unique {id p q : Nat} {n m : Node} {s t : Segment} (hn : a.node? p = some n)
    (hm : a.node? q = some m) (hp : (s, id) ∈ n.children) (hq : (t, id) ∈ m.children) :
    p = q ∧ s = t := by
  obtain ⟨-, x, hx, hxn⟩ := h.child_spec hn hp
  obtain ⟨-, y, hy, hym⟩ := h.child_spec hm hq
  rw [hx] at hy
  cases hy
  have hsegments : n.path.segments ++ [s] = m.path.segments ++ [t] := by
    rw [← KeyPath.segments_child, ← hxn, hym, KeyPath.segments_child]
  obtain ⟨hpath, hlast⟩ := List.append_inj' hsegments rfl
  have hpq : some p = some q := by rw [← h.reached hn, hpath, h.reached hm]
  exact ⟨Option.some_inj.mp hpq, List.singleton_inj.mp hlast⟩

/-- What holds of a node if it holds of its children, holds of all nodes. -/
theorem Rooted.induction {P : Nat → Node → Prop}
    (step : ∀ (id : Nat) (n : Node), a.node? id = some n →
      (∀ segment child m, (segment, child) ∈ n.children → a.node? child = some m → P child m) →
        P id n)
    (id : Nat) (n : Node) (hn : a.node? id = some n) : P id n := by
  refine step id n hn fun segment child m hchild hm => ?_
  have hlt := (h.child_spec hn hchild).1
  have hsize := node?_lt_size hm
  exact Rooted.induction step child m hm
termination_by a.size - id

/-! ### The outline -/

/-- The part of the tree below a node, as an outline. -/
def outlineAt (a : Arena) (id : Nat) : Outline :=
  (a.outlineBelow a.size id).getD (.interior .root [])

/-- Two numbers of levels give the same outline if there are as many levels as nodes left. -/
theorem Rooted.exists_outlineBelow (levels : Nat) : ∀ (other : Nat) {id : Nat}, id < a.size →
    a.size ≤ id + levels → a.size ≤ id + other →
      ∃ o, a.outlineBelow levels id = some o ∧ a.outlineBelow other id = some o := by
  -- A child has a greater number, so one level less is enough for it.
  induction levels with
  | zero =>
    intro other id hid hlevels
    omega
  | succ levels ih =>
    intro other id hid hlevels hother
    obtain ⟨other, rfl⟩ : ∃ k, other = k + 1 := ⟨other - 1, by omega⟩
    have hn : a.node? id = some a.nodes[id] := List.getElem?_eq_getElem hid
    rw [outlineBelow, outlineBelow]
    cases hnode : a.nodes[id] with
    | leaf path =>
      rw [hn, hnode]
      exact ⟨_, rfl, rfl⟩
    | interior path children =>
      rw [hn, hnode]
      refine ⟨_, rfl, ?_⟩
      simp only
      congr 2
      refine List.filterMap_congr fun child hchild => ?_
      rw [hnode] at hn
      obtain ⟨hlt, m, hm, -⟩ := h.child_spec hn hchild
      obtain ⟨o, ho, ho'⟩ := ih other (node?_lt_size hm) (by omega) (by omega)
      rw [ho, ho']

theorem Rooted.outlineBelow_eq {id : Nat} (hid : id < a.size) (levels : Nat)
    (hlevels : a.size ≤ id + levels) : a.outlineBelow levels id = some (a.outlineAt id) := by
  obtain ⟨o, ho, ho'⟩ := h.exists_outlineBelow levels a.size hid hlevels (by omega)
  unfold outlineAt
  rw [ho, ho']
  rfl

theorem Rooted.outlineAt_leaf {id : Nat} {path : KeyPath} (hn : a.node? id = some (.leaf path)) :
    a.outlineAt id = .leaf path := by
  have heq := h.outlineBelow_eq (node?_lt_size hn) (a.size + 1) (by omega)
  rw [outlineBelow, hn] at heq
  exact (Option.some_inj.mp heq).symm

/-- **The outline shows an interior node with all of its children**, in their order. -/
theorem Rooted.outlineAt_interior {id : Nat} {path : KeyPath} {children : OrderedMap Segment Nat}
    (hn : a.node? id = some (.interior path children)) :
    a.outlineAt id =
      .interior path (children.map fun child => (child.1, a.outlineAt child.2)) := by
  have heq := h.outlineBelow_eq (node?_lt_size hn) (a.size + 1) (by omega)
  have hchildren : children.filterMap (fun child =>
      (a.outlineBelow a.size child.2).map (child.1, ·)) =
        children.map fun child => (child.1, a.outlineAt child.2) := by
    rw [← List.filterMap_eq_map]
    refine List.filterMap_congr fun child hchild => ?_
    obtain ⟨-, m, hm, -⟩ := h.child_spec hn hchild
    rw [h.outlineBelow_eq (node?_lt_size hm) a.size (by omega)]
    rfl
  rw [outlineBelow, hn] at heq
  simp only [hchildren] at heq
  exact (Option.some_inj.mp heq).symm

/-! ### Leaves -/

omit h in
theorem leavesOfChildren_eq (children : List (Segment × Outline)) :
    Outline.leavesOfChildren children = children.flatMap fun child => child.2.leaves := by
  induction children with
  | nil => rfl
  | cons child rest ih => rw [Outline.leavesOfChildren, ih, List.flatMap_cons]

theorem Rooted.leaves_interior {id : Nat} {path : KeyPath} {children : OrderedMap Segment Nat}
    (hn : a.node? id = some (.interior path children)) :
    (a.outlineAt id).leaves = children.flatMap fun child => (a.outlineAt child.2).leaves := by
  rw [h.outlineAt_interior hn, Outline.leaves, leavesOfChildren_eq, List.flatMap_map]

theorem Rooted.mem_leavesAt {p : KeyPath} (id : Nat) (n : Node) (hn : a.node? id = some n) :
    p ∈ (a.outlineAt id).leaves ↔
      ∃ steps child, a.follow? id steps = some child ∧ a.node? child = some (.leaf p) := by
  revert id n
  refine h.induction fun id n hn ih => ?_
  cases n with
  | leaf path =>
    rw [h.outlineAt_leaf hn, Outline.leaves, List.mem_singleton]
    constructor
    · rintro rfl
      exact ⟨[], id, rfl, hn⟩
    · rintro ⟨steps, child, hsteps, hchild⟩
      cases steps with
      | nil =>
        cases hsteps
        rw [hn] at hchild
        cases hchild
        rfl
      | cons segment steps =>
        rw [follow?, child?, hn] at hsteps
        cases hsteps
  | interior path children =>
    rw [h.leaves_interior hn, List.mem_flatMap]
    constructor
    · rintro ⟨⟨segment, child⟩, hmem, hp⟩
      obtain ⟨-, m, hm, -⟩ := h.child_spec hn hmem
      obtain ⟨steps, leaf, hsteps, hleaf⟩ := (ih segment child m hmem hm).mp hp
      refine ⟨segment :: steps, leaf, ?_, hleaf⟩
      rw [follow?, (h.mem_children hn).mp hmem, Option.bind_some, hsteps]
    · rintro ⟨steps, leaf, hsteps, hleaf⟩
      cases steps with
      | nil =>
        cases hsteps
        rw [hn] at hleaf
        cases hleaf
      | cons segment steps =>
        rw [follow?] at hsteps
        obtain ⟨child, hchild, hsteps⟩ := Option.bind_eq_some_iff.mp hsteps
        have hmem := (h.mem_children hn).mpr hchild
        obtain ⟨-, m, hm, -⟩ := h.child_spec hn hmem
        exact ⟨_, hmem, (ih segment child m hmem hm).mpr ⟨steps, leaf, hsteps, hleaf⟩⟩

/-- A leaf below a child of a node has a path that goes on with the name of the child. -/
theorem Rooted.segments_of_mem_leavesAt {id child : Nat} {n : Node} {segment : Segment}
    {p : KeyPath} (hn : a.node? id = some n) (hmem : (segment, child) ∈ n.children)
    (hp : p ∈ (a.outlineAt child).leaves) :
    ∃ steps, p.segments = n.path.segments ++ segment :: steps := by
  obtain ⟨-, m, hm, hpath⟩ := h.child_spec hn hmem
  obtain ⟨steps, leaf, hsteps, hleaf⟩ := (h.mem_leavesAt child m hm).mp hp
  refine ⟨steps, h.follow?_injective (h.reached hleaf) ?_⟩
  have happend : n.path.segments ++ segment :: steps = m.path.segments ++ steps := by
    rw [hpath, KeyPath.segments_child, List.append_assoc, List.singleton_append]
  rw [happend, follow?_append, h.reached hm, Option.bind_some, hsteps]

theorem Rooted.nodup_leavesAt (id : Nat) (n : Node) (hn : a.node? id = some n) :
    (a.outlineAt id).leaves.Nodup := by
  revert id n
  refine h.induction fun id n hn ih => ?_
  cases n with
  | leaf path =>
    rw [h.outlineAt_leaf hn, Outline.leaves]
    exact List.nodup_singleton path
  | interior path children =>
    have hnames : children.Pairwise fun x y => x.1 ≠ y.1 := List.pairwise_map.mp (h.nodup hn)
    rw [h.leaves_interior hn, List.nodup_flatMap]
    refine ⟨?_, hnames.imp_of_mem ?_⟩
    · rintro ⟨segment, child⟩ hmem
      obtain ⟨-, m, hm, -⟩ := h.child_spec hn hmem
      exact ih segment child m hmem hm
    · rintro ⟨s, x⟩ ⟨t, y⟩ hx hy hne p hpx hpy
      obtain ⟨steps, hsteps⟩ := h.segments_of_mem_leavesAt hn hx hpx
      obtain ⟨others, hothers⟩ := h.segments_of_mem_leavesAt hn hy hpy
      rw [hsteps] at hothers
      exact hne (List.cons.inj (List.append_cancel_left hothers)).1

/-- **The leaves of the outline** are those of the tree. -/
theorem Rooted.mem_leaves {p : KeyPath} : p ∈ a.leaves ↔ a.find? p = some (.leaf p) := by
  obtain ⟨children, hroot⟩ := h.root
  have hmem := h.mem_leavesAt (p := p) Arena.root _ hroot
  constructor
  · intro hp
    obtain ⟨steps, leaf, -, hleaf⟩ := hmem.mp hp
    exact h.find?_path hleaf
  · intro hp
    obtain ⟨id, hid, hleaf⟩ := Option.bind_eq_some_iff.mp hp
    exact hmem.mpr ⟨_, id, hid, hleaf⟩

theorem Rooted.nodup_leaves : a.leaves.Nodup := by
  obtain ⟨children, hroot⟩ := h.root
  exact h.nodup_leavesAt Arena.root _ hroot

end Rooted

end Phrasebook.Arena
