import Mathlib.Data.List.Induction
import Phrasebook.Schema.Arena

/-! # Paths in the tree of keys

In a sound tree every child lies one step below its parent, so a node is reached by its own path
only (`Sound.node?_of_follow?`). Appending a child therefore changes what the tree has at one path:
that of the child (`Sound.kind?_addChild`). -/

namespace Phrasebook

/-- What a node is: the place of a text, or of texts further down. -/
inductive Node.Kind where
  | leaf
  | interior
deriving DecidableEq

/-- What a node is. -/
def Node.kind : Node → Node.Kind
  | .leaf _ => .leaf
  | .interior .. => .interior

@[simp] theorem Node.kind_withChild (segment : Segment) (id : Nat) (n : Node) :
    (n.withChild segment id).kind = n.kind := by cases n <;> rfl

@[simp] theorem Node.path_withChild (segment : Segment) (id : Nat) (n : Node) :
    (n.withChild segment id).path = n.path := by cases n <;> rfl

namespace Arena

/-- What the tree has at a path, if it has anything there. -/
def kind? (a : Arena) (path : KeyPath) : Option Node.Kind := (a.find? path).map Node.kind

/-- **A sound tree**: the first node is an interior one with the path of the root, and every child
comes after its parent and has the parent's path and one step more. -/
structure Sound (a : Arena) : Prop where
  root : ∃ children, a.node? Arena.root = some (.interior .root children)
  child : ∀ {id : Nat} {n : Node} {segment : Segment} {child : Nat}, a.node? id = some n →
    n.children.get? segment = some child →
      id < child ∧ ∃ m, a.node? child = some m ∧ m.path = n.path.child segment

theorem sound_empty : Sound {} where
  root := ⟨[], rfl⟩
  child := by
    intro id n segment child hn hchild
    cases id with
    | zero =>
      cases hn
      cases hchild
    | succ id => cases hn

/-! ### Following a path -/

theorem follow?_append (a : Arena) (id : Nat) (p q : List Segment) :
    a.follow? id (p ++ q) = (a.follow? id p).bind fun next => a.follow? next q := by
  induction p generalizing id with
  | nil => rfl
  | cons segment p ih =>
    rw [List.cons_append, follow?, follow?]
    cases a.child? id segment with
    | none => rfl
    | some child => exact ih child

theorem follow?_concat (a : Arena) (id : Nat) (p : List Segment) (segment : Segment) :
    a.follow? id (p ++ [segment]) = (a.follow? id p).bind fun next => a.child? next segment := by
  rw [follow?_append]
  congr 1
  funext next
  rw [follow?]
  cases a.child? next segment <;> rfl

theorem child?_eq_some {a : Arena} {id child : Nat} {segment : Segment}
    (h : a.child? id segment = some child) :
    ∃ n, a.node? id = some n ∧ n.children.get? segment = some child := by
  unfold child? at h
  cases hn : a.node? id with
  | none =>
    rw [hn] at h
    cases h
  | some n =>
    rw [hn] at h
    exact ⟨n, rfl, h⟩

/-- **A node that is reached by a path has this path.** -/
theorem Sound.node?_of_follow? {a : Arena} (h : a.Sound) {p : List Segment} {id : Nat}
    (hid : a.follow? Arena.root p = some id) :
    ∃ n, a.node? id = some n ∧ n.path.segments = p := by
  induction p using List.reverseRecOn generalizing id with
  | nil =>
    obtain ⟨children, hroot⟩ := h.root
    cases hid
    exact ⟨_, hroot, rfl⟩
  | append_singleton p segment ih =>
    rw [follow?_concat] at hid
    obtain ⟨parent, hparent, hchild⟩ := Option.bind_eq_some_iff.mp hid
    obtain ⟨n, hn, hpath⟩ := ih hparent
    obtain ⟨n', hn', hget⟩ := child?_eq_some hchild
    rw [hn] at hn'
    cases hn'
    obtain ⟨-, m, hm, hmpath⟩ := h.child hn hget
    exact ⟨m, hm, by rw [hmpath, KeyPath.child, hpath]⟩

theorem Sound.follow?_injective {a : Arena} (h : a.Sound) {p q : List Segment} {id : Nat}
    (hp : a.follow? Arena.root p = some id) (hq : a.follow? Arena.root q = some id) : p = q := by
  obtain ⟨n, hn, hpath⟩ := h.node?_of_follow? hp
  obtain ⟨m, hm, hmpath⟩ := h.node?_of_follow? hq
  rw [hn] at hm
  cases hm
  rw [← hpath, hmpath]

theorem node?_lt_size {a : Arena} {id : Nat} {n : Node} (h : a.node? id = some n) : id < a.size :=
  (List.getElem?_eq_some_iff.mp h).1

/-- What the tree has at a path that leads to a node. -/
theorem kind?_of_follow? {a : Arena} {p : List Segment} {id : Nat} {n : Node}
    (hid : a.follow? Arena.root p = some id) (hn : a.node? id = some n) :
    a.kind? ⟨p⟩ = some n.kind := by
  simp only [kind?, find?, hid, Option.bind_some, hn, Option.map_some]

theorem Sound.kind?_eq_none {a : Arena} (h : a.Sound) {p : List Segment} :
    a.kind? ⟨p⟩ = none ↔ a.follow? Arena.root p = none := by
  constructor
  · intro hkind
    cases hid : a.follow? Arena.root p with
    | none => rfl
    | some id =>
      obtain ⟨n, hn, -⟩ := h.node?_of_follow? hid
      rw [kind?_of_follow? hid hn] at hkind
      cases hkind
  · intro hid
    simp only [kind?, find?, hid, Option.bind_none, Option.map_none]

/-- What the tree has one step below a node. -/
theorem kind?_concat {a : Arena} {p : List Segment} {id : Nat}
    (hid : a.follow? Arena.root p = some id) (segment : Segment) :
    a.kind? ⟨p ++ [segment]⟩ = ((a.child? id segment).bind a.node?).map Node.kind := by
  unfold kind? find?
  rw [follow?_concat, hid, Option.bind_some]

theorem Sound.node?_of_child? {a : Arena} (h : a.Sound) {id child : Nat} {segment : Segment}
    (hchild : a.child? id segment = some child) : ∃ m, a.node? child = some m := by
  obtain ⟨n, hn, hget⟩ := child?_eq_some hchild
  obtain ⟨-, m, hm, -⟩ := h.child hn hget
  exact ⟨m, hm⟩

/-- In a sound tree only a child that is missing has no node. -/
theorem Sound.child?_eq_none {a : Arena} (h : a.Sound) {id : Nat} {segment : Segment}
    (hnode : (a.child? id segment).bind a.node? = none) : a.child? id segment = none := by
  cases hchild : a.child? id segment with
  | none => rfl
  | some child =>
    obtain ⟨m, hm⟩ := h.node?_of_child? hchild
    rw [hchild, Option.bind_some, hm] at hnode
    cases hnode

/-- Whatever lies further down a path lies below interior nodes. -/
theorem Sound.kind?_of_longer {a : Arena} (h : a.Sound) {p rest : List Segment} {segment : Segment}
    (hkind : a.kind? ⟨p ++ segment :: rest⟩ ≠ none) : a.kind? ⟨p⟩ = some .interior := by
  have hfollow : a.follow? Arena.root (p ++ segment :: rest) ≠ none := by
    intro hnone
    exact hkind (h.kind?_eq_none.mpr hnone)
  rw [follow?_append] at hfollow
  cases hid : a.follow? Arena.root p with
  | none =>
    rw [hid] at hfollow
    exact absurd rfl hfollow
  | some id =>
    rw [hid, Option.bind_some, follow?] at hfollow
    cases hchild : a.child? id segment with
    | none =>
      rw [hchild] at hfollow
      exact absurd rfl hfollow
    | some child =>
      obtain ⟨n, hn, hget⟩ := child?_eq_some hchild
      rw [kind?_of_follow? hid hn]
      cases n with
      | leaf path => cases hget
      | interior path children => rfl

theorem Sound.kind?_root {a : Arena} (h : a.Sound) : a.kind? .root = some .interior := by
  obtain ⟨children, hroot⟩ := h.root
  exact kind?_of_follow? rfl hroot

/-! ### Appending a child -/

section AddChild
variable {a : Arena} {parent : Nat} {segment : Segment} {child : Node}

theorem node?_addChild (hparent : parent < a.size) (id : Nat) :
    (a.addChild parent segment child).1.node? id =
      if id = a.size then some child
      else if id = parent then (a.node? id).map (Node.withChild segment a.size)
      else a.node? id := by
  unfold addChild node? size at *
  rcases Nat.lt_trichotomy id a.nodes.length with hid | hid | hid
  · rw [List.getElem?_append_left (by simpa using hid), List.getElem?_modify, if_neg (by omega)]
    by_cases h : parent = id
    · simp [h]
    · simp [h, Ne.symm h]
  · subst hid
    simp
  · rw [if_neg (by omega), if_neg (by omega), List.getElem?_eq_none (by simp; omega),
      List.getElem?_eq_none (by omega)]

/-- The data of a child that may be appended: its parent is an interior node without a child of
this name, and the child itself has no children. -/
structure Appendable (a : Arena) (parent : Nat) (path : KeyPath) (segment : Segment)
    (child : Node) : Prop where
  node : ∃ children, a.node? parent = some (.interior path children) ∧
    children.get? segment = none
  reached : a.follow? Arena.root path.segments = some parent
  path_child : child.path = path.child segment
  children : child.children = []

theorem Sound.appendable (h : a.Sound) {p : List Segment}
    (hid : a.follow? Arena.root p = some parent) (hkind : a.kind? ⟨p⟩ = some .interior)
    (hfree : a.child? parent segment = none) (hpath : child.path = ⟨p ++ [segment]⟩)
    (hchildren : child.children = []) : a.Appendable parent ⟨p⟩ segment child := by
  obtain ⟨n, hn, rfl⟩ := h.node?_of_follow? hid
  rw [kind?_of_follow? hid hn, Option.some_inj] at hkind
  cases n with
  | leaf path => cases hkind
  | interior path children =>
    unfold child? at hfree
    rw [hn] at hfree
    exact ⟨⟨children, hn, hfree⟩, hid, hpath, hchildren⟩

variable {path : KeyPath} (hf : Appendable a parent path segment child)
include hf

theorem Appendable.lt_size : parent < a.size := by
  obtain ⟨children, hparent, -⟩ := hf.node
  exact node?_lt_size hparent

theorem Appendable.child?_eq_none : a.child? parent segment = none := by
  obtain ⟨children, hparent, hfree⟩ := hf.node
  unfold child?
  rw [hparent]
  exact hfree

theorem child?_addChild (id : Nat) (s : Segment) :
    (a.addChild parent segment child).1.child? id s =
      if id = parent ∧ s = segment then some a.size else a.child? id s := by
  have hlt := hf.lt_size
  obtain ⟨children, hparent, -⟩ := hf.node
  unfold child?
  rw [node?_addChild hlt]
  by_cases hsize : id = a.size
  · have hne : ¬(id = parent ∧ s = segment) := by omega
    have hnone : a.node? id = none := List.getElem?_eq_none (Nat.le_of_eq hsize.symm)
    rw [if_pos hsize, if_neg hne, hnone, Option.bind_some, hf.children]
    rfl
  · rw [if_neg hsize]
    by_cases hid : id = parent
    · subst hid
      rw [if_pos rfl, hparent, Option.map_some, Option.bind_some, Option.bind_some]
      simp only [Node.withChild, Node.children, OrderedMap.get?_put, true_and, eq_comm]
    · rw [if_neg hid, if_neg fun h => hid h.1]

theorem Appendable.exists_node? {id : Nat} {n : Node} (hn : a.node? id = some n) :
    ∃ n', (a.addChild parent segment child).1.node? id = some n' ∧ n'.path = n.path := by
  have hsize : id ≠ a.size := Nat.ne_of_lt (node?_lt_size hn)
  rw [node?_addChild hf.lt_size, if_neg hsize, hn]
  by_cases hid : id = parent
  · rw [if_pos hid]
    exact ⟨_, rfl, n.path_withChild segment a.size⟩
  · rw [if_neg hid]
    exact ⟨n, rfl, rfl⟩

/-- **A new path leads to the new node**, and every other path leads where it led before. -/
theorem follow?_addChild (h : a.Sound) (p : List Segment) :
    (a.addChild parent segment child).1.follow? Arena.root p =
      if p = path.segments ++ [segment] then some a.size else a.follow? Arena.root p := by
  have hlt := hf.lt_size
  induction p using List.reverseRecOn with
  | nil =>
    rw [if_neg (by simp)]
    rfl
  | append_singleton p s ih =>
    rw [follow?_concat, follow?_concat, ih]
    by_cases hp : p = path.segments ++ [segment]
    · -- The new node has no children, and nothing lay below its path before.
      have hne : p ++ [s] ≠ path.segments ++ [segment] := by
        intro he
        have hlength := congrArg List.length he
        rw [hp] at hlength
        simp at hlength
      have hbefore : a.follow? Arena.root p = none := by
        rw [hp, follow?_concat, hf.reached, Option.bind_some, hf.child?_eq_none]
      have hnone : a.child? a.size s = none := by
        unfold child?
        rw [show a.node? a.size = none from List.getElem?_eq_none (Nat.le_refl _), Option.bind_none]
      rw [if_pos hp, if_neg hne, hbefore, Option.bind_some, Option.bind_none, child?_addChild hf,
        if_neg (by omega), hnone]
    · rw [if_neg hp]
      cases hid : a.follow? Arena.root p with
      | none =>
        have hne : p ++ [s] ≠ path.segments ++ [segment] := by
          intro he
          obtain ⟨rfl, -⟩ := List.append_inj' he rfl
          rw [hf.reached] at hid
          cases hid
        rw [if_neg hne, Option.bind_none, Option.bind_none]
      | some id =>
        have hiff : (id = parent ∧ s = segment) ↔ p ++ [s] = path.segments ++ [segment] := by
          constructor
          · rintro ⟨rfl, rfl⟩
            rw [h.follow?_injective hid hf.reached]
          · intro he
            obtain ⟨rfl, hs⟩ := List.append_inj' he rfl
            rw [hf.reached] at hid
            cases hid
            cases hs
            exact ⟨rfl, rfl⟩
        rw [Option.bind_some, Option.bind_some, child?_addChild hf]
        simp only [hiff]

/-- **A sound tree stays sound** when a child is appended. -/
theorem Sound.addChild (h : a.Sound) : (a.addChild parent segment child).1.Sound := by
  have hlt := hf.lt_size
  have hnode : ∀ id, (a.addChild parent segment child).1.node? id = _ := node?_addChild hlt
  obtain ⟨children, hparent, -⟩ := hf.node
  constructor
  · obtain ⟨rootChildren, hroot⟩ := h.root
    have hsize : Arena.root ≠ a.size := Nat.ne_of_lt (node?_lt_size hroot)
    rw [hnode, if_neg hsize, hroot]
    by_cases hid : Arena.root = parent
    · rw [if_pos hid]
      exact ⟨rootChildren.put segment a.size, rfl⟩
    · rw [if_neg hid]
      exact ⟨rootChildren, rfl⟩
  · intro id n s m hn hm
    have hchild : (a.addChild parent segment child).1.child? id s = some m := by
      unfold child?
      rw [hn]
      exact hm
    rw [child?_addChild hf] at hchild
    by_cases hnew : id = parent ∧ s = segment
    · obtain ⟨rfl, rfl⟩ := hnew
      rw [if_pos ⟨rfl, rfl⟩] at hchild
      cases hchild
      rw [hnode, if_neg (Nat.ne_of_lt hlt), if_pos rfl, hparent] at hn
      cases hn
      exact ⟨hlt, child, by rw [hnode, if_pos rfl], hf.path_child⟩
    · rw [if_neg hnew] at hchild
      obtain ⟨old, hold, hget⟩ := child?_eq_some hchild
      obtain ⟨hidlt, found, hfound, hpath⟩ := h.child hold hget
      obtain ⟨n', hn', hnpath⟩ := hf.exists_node? hold
      obtain ⟨m', hm', hmpath⟩ := hf.exists_node? hfound
      rw [hn] at hn'
      cases hn'
      exact ⟨hidlt, m', hm', by rw [hmpath, hpath, hnpath]⟩

/-- **What the tree has at each path** after a child was appended. -/
theorem Sound.kind?_addChild (h : a.Sound) (p : KeyPath) :
    (a.addChild parent segment child).1.kind? p =
      if p = path.child segment then some child.kind else a.kind? p := by
  have hlt := hf.lt_size
  have hiff : p = path.child segment ↔ p.segments = path.segments ++ [segment] := by
    obtain ⟨segments⟩ := p
    simp [KeyPath.child]
  unfold kind? find?
  rw [follow?_addChild hf h]
  by_cases hp : p.segments = path.segments ++ [segment]
  · rw [if_pos hp, if_pos (hiff.mpr hp), Option.bind_some, node?_addChild hlt, if_pos rfl]
    rfl
  · rw [if_neg hp, if_neg (hiff.not.mpr hp)]
    cases hid : a.follow? Arena.root p.segments with
    | none => rfl
    | some id =>
      obtain ⟨n, hn, -⟩ := h.node?_of_follow? hid
      have hsize : id ≠ a.size := Nat.ne_of_lt (node?_lt_size hn)
      rw [Option.bind_some, Option.bind_some, node?_addChild hlt, if_neg hsize, hn]
      by_cases hid : id = parent
      · rw [if_pos hid, Option.map_some, Option.map_some, Option.map_some, Node.kind_withChild]
      · rw [if_neg hid]

end AddChild

end Arena

end Phrasebook
