import Phrasebook.Artifact.View
import Phrasebook.Proofs.Schema.Outline

/-! # What is left of an outline

A view remembers under the path of an interior node whether a wanted leaf lies below it. In a rooted
tree a path belongs to one node only, so what is remembered is right, and the view is the outline
without the children in which no wanted leaf lies (`view_snippets`). -/

namespace Phrasebook

namespace Outline

mutual

/-- Whether a leaf with one of the wanted paths lies in the outline. -/
def holds (wanted : KeyPath → Bool) : Outline → Bool
  | .leaf path => wanted path
  | .interior _ children => holdsInChildren wanted children

/-- Whether a leaf with one of the wanted paths lies below some children. -/
def holdsInChildren (wanted : KeyPath → Bool) : List (Segment × Outline) → Bool
  | [] => false
  | (_, child) :: rest => holds wanted child || holdsInChildren wanted rest

end

mutual

/-- The outline without the children in which no wanted leaf lies. -/
def pruned (wanted : KeyPath → Bool) : Outline → Outline
  | .leaf path => .leaf path
  | .interior path children => .interior path (prunedChildren wanted children)

/-- The children in which a wanted leaf lies, without their children in which none does. -/
def prunedChildren (wanted : KeyPath → Bool) : List (Segment × Outline) → List (Segment × Outline)
  | [] => []
  | (segment, child) :: rest =>
    if child.holds wanted then (segment, pruned wanted child) :: prunedChildren wanted rest
    else prunedChildren wanted rest

end

/-! ### What is remembered -/

/-- **What is remembered is right**: it is what is true of the paths. -/
def Remembers (truth : KeyPath → Bool) (known : Findings) : Prop :=
  ∀ path answer, known.get? path = some answer → answer = truth path

/-- Under the path of each interior node it is true whether a wanted leaf lies below. -/
inductive Tells (wanted truth : KeyPath → Bool) : Outline → Prop where
  | leaf (path : KeyPath) : Tells wanted truth (.leaf path)
  | interior {path : KeyPath} {children : List (Segment × Outline)}
      (h : truth path = holdsInChildren wanted children)
      (hchildren : ∀ child ∈ children, Tells wanted truth child.2) :
      Tells wanted truth (.interior path children)

section Findings
variable {wanted truth : KeyPath → Bool}

theorem remembers_nil : Remembers truth [] := by
  intro path answer h
  cases h

theorem Remembers.put {known : Findings} (h : Remembers truth known) (path : KeyPath) :
    Remembers truth (known.put path (truth path)) := by
  intro other answer hget
  rw [OrderedMap.get?_put] at hget
  split_ifs at hget with hpath
  · cases hget
    rw [hpath]
  · exact h other answer hget

theorem Tells.children {path : KeyPath} {children : List (Segment × Outline)}
    (h : Tells wanted truth (.interior path children)) :
    truth path = holdsInChildren wanted children ∧
      ∀ child ∈ children, Tells wanted truth child.2 := by
  cases h with
  | interior htruth hchildren => exact ⟨htruth, hchildren⟩

mutual

/-- **What is looked for is found**, and what is remembered stays right. -/
theorem includes_spec : ∀ (o : Outline) (known : Findings), o.Tells wanted truth →
    Remembers truth known → (includes wanted known o).1 = o.holds wanted ∧
      Remembers truth (includes wanted known o).2
  | .leaf path, known, _, hknown => by
    rw [includes, holds]
    exact ⟨rfl, hknown⟩
  | .interior path children, known, htells, hknown => by
    obtain ⟨htruth, hchildren⟩ := htells.children
    rw [includes, holds]
    cases hget : known.get? path with
    | some answer => exact ⟨(hknown path answer hget).trans htruth, hknown⟩
    | none =>
      obtain ⟨hanswer, hfound⟩ := includesAny_spec children known hchildren hknown
      have hput := hfound.put path
      rw [htruth, ← hanswer] at hput
      exact ⟨hanswer, hput⟩

theorem includesAny_spec : ∀ (children : List (Segment × Outline)) (known : Findings),
    (∀ child ∈ children, child.2.Tells wanted truth) → Remembers truth known →
      (includesAny wanted known children).1 = holdsInChildren wanted children ∧
        Remembers truth (includesAny wanted known children).2
  | [], known, _, hknown => by
    rw [includesAny, holdsInChildren]
    exact ⟨rfl, hknown⟩
  | (segment, child) :: rest, known, htells, hknown => by
    obtain ⟨hchild, hrest⟩ := List.forall_mem_cons.mp htells
    have hspec := includes_spec child known hchild hknown
    rw [includesAny, holdsInChildren, ← hspec.1]
    generalize includes wanted known child = finding at hspec ⊢
    obtain ⟨answer, found⟩ := finding
    cases answer with
    | true => exact ⟨rfl, hspec.2⟩
    | false => exact includesAny_spec rest found hrest hspec.2

end

mutual

theorem shown_spec : ∀ (o : Outline) (known : Findings), o.Tells wanted truth →
    Remembers truth known → (shown wanted known o).1 = o.pruned wanted ∧
      Remembers truth (shown wanted known o).2
  | .leaf path, known, _, hknown => by
    rw [shown, pruned]
    exact ⟨rfl, hknown⟩
  | .interior path children, known, htells, hknown => by
    obtain ⟨hshown, hfound⟩ := shownChildren_spec children known htells.children.2 hknown
    rw [shown, pruned, ← hshown]
    exact ⟨rfl, hfound⟩

theorem shownChildren_spec : ∀ (children : List (Segment × Outline)) (known : Findings),
    (∀ child ∈ children, child.2.Tells wanted truth) → Remembers truth known →
      (shownChildren wanted known children).1 = prunedChildren wanted children ∧
        Remembers truth (shownChildren wanted known children).2
  | [], known, _, hknown => by
    rw [shownChildren, prunedChildren]
    exact ⟨rfl, hknown⟩
  | (segment, child) :: rest, known, htells, hknown => by
    obtain ⟨hchild, hrest⟩ := List.forall_mem_cons.mp htells
    have hspec := includes_spec child known hchild hknown
    rw [shownChildren, prunedChildren, ← hspec.1]
    generalize includes wanted known child = finding at hspec ⊢
    obtain ⟨answer, found⟩ := finding
    cases answer with
    | true =>
      obtain ⟨hshown, hbelow⟩ := shown_spec child found hchild hspec.2
      obtain ⟨hothers, hafter⟩ := shownChildren_spec rest _ hrest hbelow
      rw [← hshown, ← hothers]
      exact ⟨rfl, hafter⟩
    | false => exact shownChildren_spec rest found hrest hspec.2

end

end Findings

end Outline

/-! ### The tree of a schema -/

/-- Whether a wanted leaf lies below the node at a path. -/
def Arena.holdsAt (a : Arena) (wanted : KeyPath → Bool) (path : KeyPath) : Bool :=
  ((a.follow? root path.segments).map fun id => (a.outlineAt id).holds wanted).getD false

theorem Arena.Rooted.tells {a : Arena} (h : a.Rooted) (wanted : KeyPath → Bool) (id : Nat)
    (n : Node) (hn : a.node? id = some n) : (a.outlineAt id).Tells wanted (a.holdsAt wanted) := by
  revert id n
  refine h.induction fun id n hn ih => ?_
  cases n with
  | leaf path =>
    rw [h.outlineAt_leaf hn]
    exact .leaf path
  | interior path children =>
    have hholds : a.holdsAt wanted path = (a.outlineAt id).holds wanted := by
      have hreached : a.follow? Arena.root path.segments = some id := h.reached hn
      unfold holdsAt
      rw [hreached]
      rfl
    rw [h.outlineAt_interior hn, Outline.holds] at hholds
    rw [h.outlineAt_interior hn]
    refine .interior hholds ?_
    rw [List.forall_mem_map]
    rintro ⟨segment, child⟩ hchild
    obtain ⟨-, m, hm, -⟩ := h.child_spec hn hchild
    exact ih segment child m hchild hm

/-- **The view of the snippets** is the outline without the children in which no key with formatters
lies. -/
theorem Catalogue.view_snippets {c : Catalogue} (h : c.arena.Rooted) :
    c.view .snippets = c.arena.outline.pruned (c.isShown .snippets) := by
  obtain ⟨children, hroot⟩ := h.toSound.root
  have htells := h.tells (c.isShown .snippets) Arena.root _ hroot
  exact (Outline.shown_spec _ [] htells Outline.remembers_nil).1

end Phrasebook
