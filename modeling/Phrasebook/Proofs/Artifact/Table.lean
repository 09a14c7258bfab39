import Phrasebook.Artifact.Declarations
import Phrasebook.Artifact.Runtime
import Phrasebook.Proofs.Artifact.Inclusion

/-! # The tables of the modules

The table of parameters has one entry for each key that is shown, in the order of the tree
(`Declarations.table_walk`), and so has the table of accessors (`Runtime.table_walk`). -/

namespace Phrasebook

namespace Outline
variable (wanted : KeyPath → Bool)

mutual

theorem holds_eq : ∀ o : Outline, o.holds wanted = o.leaves.any wanted
  | .leaf path => by
    rw [holds, leaves, List.any_cons, List.any_nil, Bool.or_false]
  | .interior path children => by
    rw [holds, leaves, holdsInChildren_eq children]

theorem holdsInChildren_eq : ∀ children : List (Segment × Outline),
    holdsInChildren wanted children = (leavesOfChildren children).any wanted
  | [] => by
    rw [holdsInChildren, leavesOfChildren, List.any_nil]
  | (segment, child) :: rest => by
    rw [holdsInChildren, leavesOfChildren, List.any_append, holds_eq child,
      holdsInChildren_eq rest]

end

mutual

/-- **The leaves that are left** after pruning are the wanted ones. -/
theorem leaves_pruned : ∀ o : Outline, o.holds wanted = true →
    (o.pruned wanted).leaves = o.leaves.filter wanted
  | .leaf path, h => by
    rw [holds] at h
    rw [pruned, leaves, List.filter_cons_of_pos h, List.filter_nil]
  | .interior path children, h => by
    rw [pruned, leaves, leaves, leavesOfChildren_pruned children]

theorem leavesOfChildren_pruned : ∀ children : List (Segment × Outline),
    leavesOfChildren (prunedChildren wanted children) = (leavesOfChildren children).filter wanted
  | [] => by
    rw [prunedChildren, leavesOfChildren, List.filter_nil]
  | (segment, child) :: rest => by
    rw [prunedChildren, leavesOfChildren, List.filter_append]
    split_ifs with hholds
    · rw [leavesOfChildren, leaves_pruned child hholds, leavesOfChildren_pruned rest]
    · have hnone : child.leaves.filter wanted = [] := by
        rw [holds_eq, List.any_eq_true] at hholds
        exact List.filter_eq_nil_iff.mpr fun p hp hwanted => hholds ⟨p, hp, hwanted⟩
      rw [hnone, leavesOfChildren_pruned rest, List.nil_append]

end

end Outline

/-- **The leaves of a view** are the leaves that are shown. -/
theorem Catalogue.leaves_view {c : Catalogue} (h : c.arena.Rooted) (showing : Showing) :
    Outline.leavesOfChildren (c.view showing).children =
      c.arena.leaves.filter (c.isShown showing) := by
  obtain ⟨children, hroot⟩ := h.toSound.find?_interior.mpr h.toSound.kind?_root
  have houtline : c.arena.outline =
      .interior .root (children.map fun child => (child.1, c.arena.outlineAt child.2)) :=
    h.outlineAt_interior hroot
  unfold Arena.leaves
  cases showing with
  | translations =>
    have hall : (c.isShown .translations) = fun _ => true := rfl
    rw [hall, List.filter_true, Catalogue.view, houtline]
    rfl
  | snippets =>
    rw [Catalogue.view_snippets h, houtline]
    exact Outline.leavesOfChildren_pruned (c.isShown .snippets) _

namespace Declarations

theorem table_walkChildren (c : Catalogue) (showing : Showing) :
    ∀ children : List (Segment × Outline), (walkChildren c showing children).table =
      (Outline.leavesOfChildren children).filterMap fun path =>
        (c.entry? path).map (tableEntry showing)
  | [] => by
    rw [walkChildren, Outline.leavesOfChildren]
    rfl
  | (segment, .leaf path) :: rest => by
    have ih := table_walkChildren c showing rest
    rw [walkChildren, Outline.leavesOfChildren, Outline.leaves, List.singleton_append]
    cases he : c.entry? path with
    | none =>
      rw [List.filterMap_cons_none (by rw [he]; rfl)]
      exact ih
    | some e =>
      rw [List.filterMap_cons_some (by rw [he]; rfl), ← ih]
  | (segment, .interior path children) :: rest => by
    rw [walkChildren, Outline.leavesOfChildren, Outline.leaves, List.filterMap_append,
      ← table_walkChildren c showing children, ← table_walkChildren c showing rest]

/-- **The table has the entries of the keys that are shown**, in the order of the tree. -/
theorem table_walk {c : Catalogue} (h : c.arena.Rooted) (showing : Showing) :
    (walk c showing).table = (c.arena.leaves.filter (c.isShown showing)).filterMap fun path =>
      (c.entry? path).map (tableEntry showing) := by
  unfold walk
  rw [table_walkChildren, Catalogue.leaves_view h]

end Declarations

namespace Runtime

theorem table_walkChildren (c : Catalogue) (showing : Showing) :
    ∀ (children : List (Segment × Outline)) (next : Nat),
      (walkChildren c showing next children).table =
        (Outline.leavesOfChildren children).filterMap fun path => (c.entry? path).map tableEntry
  | [], next => by
    rw [walkChildren, Outline.leavesOfChildren]
    rfl
  | (segment, .leaf path) :: rest, next => by
    rw [walkChildren, Outline.leavesOfChildren, Outline.leaves, List.singleton_append]
    cases he : c.entry? path with
    | none =>
      rw [List.filterMap_cons_none (by rw [he]; rfl)]
      exact table_walkChildren c showing rest next
    | some e =>
      rw [List.filterMap_cons_some (by rw [he]; rfl)]
      exact congrArg (tableEntry e :: ·) (table_walkChildren c showing rest _)
  | (segment, .interior path children) :: rest, next => by
    rw [walkChildren, Outline.leavesOfChildren, Outline.leaves, List.filterMap_append,
      ← table_walkChildren c showing children next, ← table_walkChildren c showing rest]

/-- **The table has the accessors of the keys that are shown**, in the order of the tree. -/
theorem table_walk {c : Catalogue} (h : c.arena.Rooted) (showing : Showing) :
    (walk c showing).table = (c.arena.leaves.filter (c.isShown showing)).filterMap fun path =>
      (c.entry? path).map tableEntry := by
  unfold walk
  rw [table_walkChildren, Catalogue.leaves_view h]

end Runtime

end Phrasebook
