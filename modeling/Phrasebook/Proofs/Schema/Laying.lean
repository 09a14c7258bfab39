import Mathlib.Data.List.Flatten
import Phrasebook.Proofs.Schema.Descent
import Phrasebook.Proofs.Schema.Outline

/-! # Laying a path down the tree

To lay a path down the tree is to take, step by step, the child that is there, or to append one where
there is none (`Laid`). This is what the way down a path does (`laid_descend`). All that a tree had
stays: each node keeps its number, its kind, its path and its children, and new children come after
the old ones (`Extends`, `Laid.extends`). So the leaves of the tree stay in their order
(`Extends.sublist_leaves`). -/

namespace Phrasebook.Arena

/-! ### Laying a path -/

/-- **A path is laid down a tree**: what comes of the tree, and the number of the node at the end. -/
inductive Laid (a : Arena) : List Segment → Arena → Nat → Prop where
  | root : Laid a [] a Arena.root
  /-- The child is there. -/
  | old {p : List Segment} {a' : Arena} {id child : Nat} {segment : Segment} (h : Laid a p a' id)
      (hchild : a'.child? id segment = some child) : Laid a (p ++ [segment]) a' child
  /-- The child is appended. -/
  | new {p : List Segment} {a' : Arena} {id : Nat} {segment : Segment} {child : Node}
      (h : Laid a p a' id) (hf : a'.Appendable id ⟨p⟩ segment child) :
      Laid a (p ++ [segment]) (a'.addChild id segment child).1 a'.size

section Laid
variable {a a' : Arena} {p : List Segment} {id : Nat} (ha : a.Rooted)
include ha

/-- A tree stays rooted while a path is laid down, and the path leads to its end. -/
theorem Laid.rooted (h : a.Laid p a' id) : a'.Rooted ∧ a'.follow? Arena.root p = some id := by
  induction h with
  | root => exact ⟨ha, rfl⟩
  | old _ hchild ih =>
    obtain ⟨hrooted, hreached⟩ := ih
    refine ⟨hrooted, ?_⟩
    rw [follow?_concat, hreached, Option.bind_some, hchild]
  | new _ hf ih =>
    obtain ⟨hrooted, hreached⟩ := ih
    refine ⟨hrooted.addChild hf, ?_⟩
    rw [follow?_addChild hf hrooted.toSound, if_pos rfl]

/-- **The way down lays its path.** -/
theorem laid_descend {done rest : List Segment} {a₁ : Arena} {start : Nat}
    (h : a.Laid done a₁ start) (hkind : a₁.kind? ⟨done⟩ = some .interior)
    (hok : Catalogue.descend a₁ start done rest = .ok (a', id)) : a.Laid (done ++ rest) a' id := by
  induction rest generalizing a₁ start done with
  | nil =>
    cases hok
    rwa [List.append_nil]
  | cons segment rest ih =>
    have happend : done ++ segment :: rest = done ++ [segment] ++ rest := by simp
    obtain ⟨hrooted, hreached⟩ := h.rooted ha
    rw [happend]
    cases hchild : a₁.child? start segment with
    | none =>
      rw [Catalogue.descend_of_none hchild] at hok
      have hf : a₁.Appendable start ⟨done⟩ segment (.interior ⟨done ++ [segment]⟩ []) :=
        hrooted.toSound.appendable hreached hkind hchild rfl rfl
      have hinterior : (a₁.addChild start segment (.interior ⟨done ++ [segment]⟩ [])).1.kind?
          ⟨done ++ [segment]⟩ = some .interior :=
        (Arena.Sound.kind?_addChild hf hrooted.toSound _).trans (if_pos rfl)
      exact ih (.new h hf) hinterior hok
    | some child =>
      obtain ⟨m, hm⟩ := hrooted.toSound.node?_of_child? hchild
      cases m with
      | leaf path =>
        rw [Catalogue.descend_of_leaf hchild hm] at hok
        cases hok
      | interior path children =>
        have hinterior := Arena.kind?_concat hreached segment
        rw [hchild, Option.bind_some, hm, Option.map_some] at hinterior
        rw [Catalogue.descend_of_interior hchild hm] at hok
        exact ih (.old h hchild) hinterior hok

end Laid

/-! ### Extending a tree -/

/-- **A tree extends another**: each node of the other is there under its number, with its kind and
its path, and its children are the first ones that it has. -/
def Extends (a a' : Arena) : Prop :=
  ∀ id n, a.node? id = some n → ∃ n', a'.node? id = some n' ∧ n'.kind = n.kind ∧
    n'.path = n.path ∧ n.children <+: n'.children

theorem Extends.refl (a : Arena) : a.Extends a :=
  fun _ n hn => ⟨n, hn, rfl, rfl, List.prefix_rfl⟩

theorem Extends.trans {a b c : Arena} (hab : a.Extends b) (hbc : b.Extends c) : a.Extends c := by
  intro id n hn
  obtain ⟨m, hm, hkind, hpath, hchildren⟩ := hab id n hn
  obtain ⟨k, hk, hkind', hpath', hchildren'⟩ := hbc id m hm
  exact ⟨k, hk, hkind'.trans hkind, hpath'.trans hpath, hchildren.trans hchildren'⟩

theorem Appendable.extends {a : Arena} {parent : Nat} {path : KeyPath} {segment : Segment}
    {child : Node} (hf : a.Appendable parent path segment child) :
    a.Extends (a.addChild parent segment child).1 := by
  intro id n hn
  have hsize : id ≠ a.size := Nat.ne_of_lt (node?_lt_size hn)
  rw [node?_addChild hf.lt_size, if_neg hsize]
  by_cases hid : id = parent
  · subst hid
    obtain ⟨children, hparent, hfree⟩ := hf.node
    rw [hn, Option.some_inj] at hparent
    subst hparent
    have hput : children.put segment a.size = children ++ [(segment, a.size)] :=
      OrderedMap.put_of_get?_eq_none hfree
    rw [if_pos rfl, hn]
    refine ⟨_, rfl, rfl, rfl, ?_⟩
    show children <+: children.put segment a.size
    rw [hput]
    exact List.prefix_append children _
  · rw [if_neg hid]
    exact ⟨n, hn, rfl, rfl, List.prefix_rfl⟩

theorem Laid.extends {a a' : Arena} {p : List Segment} {id : Nat} (h : a.Laid p a' id) :
    a.Extends a' := by
  induction h with
  | root => exact .refl a
  | old _ _ ih => exact ih
  | new _ hf ih => exact ih.trans hf.extends

/-! ### The leaves of a tree that was extended -/

section Extends
variable {a a' : Arena} (h : a.Rooted) (h' : a'.Rooted) (hextends : a.Extends a')
include h h' hextends

theorem Extends.sublist_leavesAt (id : Nat) (n : Node) (hn : a.node? id = some n) :
    (a.outlineAt id).leaves.Sublist (a'.outlineAt id).leaves := by
  revert id n
  refine h.induction fun id n hn ih => ?_
  obtain ⟨n', hn', hkind, hpath, rest, hchildren⟩ := hextends id n hn
  cases n with
  | leaf path =>
    cases n' with
    | leaf path' =>
      obtain rfl : path' = path := hpath
      rw [h.outlineAt_leaf hn, h'.outlineAt_leaf hn']
    | interior path' children' => cases hkind
  | interior path children =>
    cases n' with
    | leaf path' => cases hkind
    | interior path' children' =>
      obtain rfl : children ++ rest = children' := hchildren
      rw [h.leaves_interior hn, h'.leaves_interior hn', List.flatMap_append]
      have hold : (children.flatMap fun child => (a.outlineAt child.2).leaves).Sublist
          (children.flatMap fun child => (a'.outlineAt child.2).leaves) := by
        refine List.Sublist.flatMap_right _ fun child hchild => ?_
        obtain ⟨-, m, hm, -⟩ := h.child_spec hn hchild
        exact ih child.1 child.2 m hchild hm
      exact hold.trans (List.sublist_append_left _ _)

/-- **The leaves of a tree keep their order** when it is extended. -/
theorem Extends.sublist_leaves : a.leaves.Sublist a'.leaves := by
  obtain ⟨children, hroot⟩ := h.root
  exact hextends.sublist_leavesAt h h' Arena.root _ hroot

theorem Extends.sublist_keys : a.keys.Sublist a'.keys :=
  (hextends.sublist_leaves h h').map KeyPath.key

end Extends

end Phrasebook.Arena
