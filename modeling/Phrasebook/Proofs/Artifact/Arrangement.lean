import Phrasebook.Proofs.Artifact.Depiction
import Phrasebook.Proofs.Artifact.Table

/-! # How a view is arranged

The children in the view of a merged schema have different names, stand where their paths say, and
each holds a leaf with an entry of its own path (`Catalogue.Arranges`, `Contents.arranges_view`). -/

namespace Phrasebook

/-- **Children are arranged** below a path: their names are texts and differ, their paths go on with
their names, a leaf has an entry of its path, and an interior node has a leaf below it. -/
inductive Catalogue.Arranges (c : Catalogue) : KeyPath → List (Segment × Outline) → Prop where
  | nil (p : KeyPath) : c.Arranges p []
  | leaf {p : KeyPath} {name : Text} {rest : List (Segment × Outline)} {e : Entry}
      (hnew : Segment.name name ∉ OrderedMap.keys rest)
      (he : c.entry? (p.child (.name name)) = some e) (hpath : e.path = p.child (.name name))
      (hrest : c.Arranges p rest) :
      c.Arranges p ((.name name, .leaf (p.child (.name name))) :: rest)
  | interior {p : KeyPath} {name : Text} {below rest : List (Segment × Outline)}
      (hnew : Segment.name name ∉ OrderedMap.keys rest)
      (hleaf : Outline.leavesOfChildren below ≠ [])
      (hbelow : c.Arranges (p.child (.name name)) below) (hrest : c.Arranges p rest) :
      c.Arranges p ((.name name, .interior (p.child (.name name)) below) :: rest)

namespace Catalogue.Arranges

variable {c : Catalogue} {p : KeyPath} {children : List (Segment × Outline)}

/-! ### Leaves -/

theorem exists_names (h : c.Arranges p children) {q : KeyPath}
    (hq : q ∈ Outline.leavesOfChildren children) : ∃ (name : Text) (names : List Text),
      Segment.name name ∈ OrderedMap.keys children ∧
        q.segments = p.segments ++ .name name :: names.map .name := by
  induction h with
  | nil => cases hq
  | @leaf p name rest e hnew he hpath hrest ih =>
    rw [Outline.leavesOfChildren, Outline.leaves, List.singleton_append] at hq
    rcases List.mem_cons.mp hq with rfl | hq
    · exact ⟨name, [], List.mem_cons_self, rfl⟩
    · obtain ⟨other, names, hmem, hsegments⟩ := ih hq
      exact ⟨other, names, List.mem_cons_of_mem _ hmem, hsegments⟩
  | @interior p name below rest hnew hleaf hbelow hrest ihbelow ihrest =>
    rw [Outline.leavesOfChildren, Outline.leaves] at hq
    rcases List.mem_append.mp hq with hq | hq
    · obtain ⟨other, names, -, hsegments⟩ := ihbelow hq
      refine ⟨name, other :: names, List.mem_cons_self, ?_⟩
      rw [hsegments, KeyPath.segments_child, List.append_assoc, List.singleton_append]
      rfl
    · obtain ⟨other, names, hmem, hsegments⟩ := ihrest hq
      exact ⟨other, names, List.mem_cons_of_mem _ hmem, hsegments⟩

theorem eq_name_of_mem_keys (h : c.Arranges p children) {segment : Segment}
    (hmem : segment ∈ OrderedMap.keys children) : segment = .name segment.toText := by
  induction h with
  | nil => cases hmem
  | leaf _ _ _ _ ih | interior _ _ _ _ _ ih =>
    rcases List.mem_cons.mp hmem with rfl | hmem
    · rfl
    · exact ih hmem

end Catalogue.Arranges

/-! ### Pruning -/

theorem Outline.keys_prunedChildren_sublist (wanted : KeyPath → Bool)
    (children : List (Segment × Outline)) :
    (OrderedMap.keys (prunedChildren wanted children)).Sublist (OrderedMap.keys children) := by
  induction children with
  | nil => rw [prunedChildren]
  | cons child rest ih =>
    obtain ⟨segment, child⟩ := child
    rw [prunedChildren]
    split_ifs
    · exact ih.cons_cons segment
    · exact ih.cons segment

/-- **What is left after pruning** is arranged as before. -/
theorem Catalogue.Arranges.pruned {c : Catalogue} (wanted : KeyPath → Bool) {p : KeyPath}
    {children : List (Segment × Outline)} (h : c.Arranges p children) :
    c.Arranges p (Outline.prunedChildren wanted children) := by
  induction h with
  | nil p =>
    rw [Outline.prunedChildren]
    exact .nil p
  | @leaf p name rest e hnew he hpath hrest ih =>
    have hnew' := fun hmem => hnew ((Outline.keys_prunedChildren_sublist wanted rest).subset hmem)
    rw [Outline.prunedChildren]
    split_ifs
    · rw [Outline.pruned]
      exact .leaf hnew' he hpath ih
    · exact ih
  | @interior p name below rest hnew hleaf hbelow hrest ihbelow ihrest =>
    have hnew' := fun hmem => hnew ((Outline.keys_prunedChildren_sublist wanted rest).subset hmem)
    rw [Outline.prunedChildren]
    split_ifs with hholds
    · have hleft : Outline.leavesOfChildren (Outline.prunedChildren wanted below) ≠ [] := by
        rw [Outline.holds, Outline.holdsInChildren_eq, List.any_eq_true] at hholds
        obtain ⟨q, hq, hwanted⟩ := hholds
        rw [Outline.leavesOfChildren_pruned]
        exact List.ne_nil_of_mem (List.mem_filter.mpr ⟨hq, hwanted⟩)
      rw [Outline.pruned]
      exact .interior hnew' hleft ihbelow ihrest
    · exact ihrest

/-! ### The view of a merged schema -/

section Contents
variable {compiler : Compiler} {documents : List Document} {c : Catalogue}
  (h : c.Contents compiler (translationsOf documents))
include h

theorem Catalogue.Contents.leaves_ne_nil {id : Nat} {path : KeyPath}
    {children : OrderedMap Segment Nat} (hn : c.arena.node? id = some (.interior path children))
    (hroot : path ≠ .root) : (c.arena.outlineAt id).leaves ≠ [] := by
  have hid : id ≠ 0 := by
    rintro rfl
    obtain ⟨others, hfirst⟩ := h.rooted.toSound.root
    have hsame := hn.symm.trans hfirst
    cases hsame
    exact hroot rfl
  obtain ⟨steps, leaf, q, hsteps, hleaf⟩ := h.holds_arena.leafBelow id path children hn hid
  exact List.ne_nil_of_mem ((h.rooted.mem_leavesAt id _ hn).mpr ⟨steps, leaf, hsteps, hleaf⟩)

/-- **The children of a node** are arranged below its path. -/
theorem Catalogue.Contents.arranges (id : Nat) (n : Node) (hn : c.arena.node? id = some n) :
    c.Arranges n.path (c.arena.outlines n.children) := by
  revert id n
  refine h.rooted.induction fun id n hn ih => ?_
  -- Any children of the node with different names are arranged, the first of them after the others.
  have hpart : ∀ part : OrderedMap Segment Nat, part ⊆ n.children → (OrderedMap.keys part).Nodup →
      c.Arranges n.path (c.arena.outlines part) := by
    intro part hsub hnodup
    induction part with
    | nil => exact .nil _
    | cons child part ihrest =>
      obtain ⟨segment, number⟩ := child
      obtain ⟨hmem, hrest⟩ := List.cons_subset.mp hsub
      obtain ⟨hfirst, hothers⟩ := List.nodup_cons.mp hnodup
      have hnew : segment ∉ OrderedMap.keys (c.arena.outlines part) := by
        have hkeys : OrderedMap.keys (c.arena.outlines part) = OrderedMap.keys part := List.map_map
        rwa [hkeys]
      have harranged := ihrest hrest hothers
      obtain ⟨-, m, hm, hpath⟩ := h.rooted.child_spec hn hmem
      obtain ⟨name, rfl⟩ : ∃ name, segment = .name name := ⟨_, h.name_of_mem_children hn hmem⟩
      have hcons : c.arena.outlines ((.name name, number) :: part) =
          (.name name, c.arena.outlineAt number) :: c.arena.outlines part := rfl
      rw [hcons]
      cases m with
      | leaf path =>
        obtain rfl : path = n.path.child (.name name) := hpath
        obtain ⟨e, he, hpath⟩ := h.exists_entry (h.find?_leaf.mp (h.rooted.find?_path hm))
        rw [h.rooted.outlineAt_leaf hm]
        exact .leaf hnew he hpath harranged
      | interior path children =>
        obtain rfl : path = n.path.child (.name name) := hpath
        have hbelow := ih (.name name) number _ hmem hm
        have hleaves := h.leaves_ne_nil hm (KeyPath.child_ne_root _ _)
        rw [h.rooted.outlineAt_interior hm] at hleaves ⊢
        exact .interior hnew hleaves hbelow harranged
  exact hpart n.children (List.Subset.refl _) (h.rooted.nodup hn)

/-- **The view of a merged schema is arranged.** -/
theorem Catalogue.Contents.arranges_view (showing : Showing) :
    c.Arranges .root (c.view showing).children := by
  obtain ⟨children, hroot⟩ := h.rooted.toSound.root
  have harranges : c.Arranges .root (c.arena.outlines children) := h.arranges Arena.root _ hroot
  have houtline : c.arena.outline = .interior .root (c.arena.outlines children) :=
    h.rooted.outlineAt_interior hroot
  cases showing with
  | translations =>
    rw [Catalogue.view, houtline]
    exact harranges
  | snippets =>
    rw [Catalogue.view_snippets h.rooted, houtline]
    exact harranges.pruned _

end Contents

end Phrasebook
