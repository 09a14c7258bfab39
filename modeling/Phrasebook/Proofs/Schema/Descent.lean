import Phrasebook.Proofs.Document.KeyPath
import Phrasebook.Proofs.Schema.Arena
import Phrasebook.Schema.Merger

/-! # Going down the tree of keys

The way down a path ends at the first leaf that it meets. If it meets none, it leads to an interior
node, and all that it changes is that the missing nodes on the way become interior ones
(`descend_spec`, `Descended`). -/

namespace Phrasebook.Catalogue

open KeyPath (beginnings)

/-- The first leaf on the way from a path along some steps. -/
def firstLeaf? (a : Arena) (done rest : List Segment) : Option KeyPath :=
  (beginnings done rest).find? fun p => a.kind? p = some .leaf

/-- **What the way down leaves behind**: a sound tree that has an interior node at the end of the
way, and interior nodes on the way where it had nothing. -/
structure Descended (a : Arena) (done rest : List Segment) (a' : Arena) (id' : Nat) : Prop where
  sound : a'.Sound
  reached : a'.follow? Arena.root (done ++ rest) = some id'
  interior : a'.kind? ⟨done ++ rest⟩ = some .interior
  kind? : ∀ p, a'.kind? p =
    if a.kind? p = none ∧ p ∈ beginnings done rest then some .interior else a.kind? p

section Step
variable {a : Arena} {id : Nat} {done : List Segment} {segment : Segment} {rest : List Segment}

theorem descend_of_none (h : a.child? id segment = none) :
    descend a id done (segment :: rest) =
      descend (a.addChild id segment (.interior ⟨done ++ [segment]⟩ [])).1 a.size
        (done ++ [segment]) rest := by
  rw [descend, h]
  rfl

theorem descend_of_leaf {child : Nat} {path : KeyPath} (h : a.child? id segment = some child)
    (hnode : a.node? child = some (.leaf path)) :
    descend a id done (segment :: rest) = .error ⟨done ++ [segment]⟩ := by
  simp only [descend, h, hnode]

theorem descend_of_interior {child : Nat} {path : KeyPath} {children : OrderedMap Segment Nat}
    (h : a.child? id segment = some child)
    (hnode : a.node? child = some (.interior path children)) :
    descend a id done (segment :: rest) = descend a child (done ++ [segment]) rest := by
  simp only [descend, h, hnode]

end Step

theorem firstLeaf?_cons (a : Arena) (done : List Segment) (segment : Segment)
    (rest : List Segment) :
    firstLeaf? a done (segment :: rest) =
      if a.kind? ⟨done ++ [segment]⟩ = some .leaf then some ⟨done ++ [segment]⟩
      else firstLeaf? a (done ++ [segment]) rest := by
  unfold firstLeaf?
  rw [beginnings, List.find?_cons]
  by_cases h : a.kind? ⟨done ++ [segment]⟩ = some .leaf <;> simp [h]

/-- One tree has an interior node where the other may have nothing, and is the same elsewhere. -/
def Opened (a a' : Arena) (path : KeyPath) : Prop :=
  ∀ p, a'.kind? p = if a.kind? p = none ∧ p = path then some .interior else a.kind? p

/-- An interior node in place of nothing makes no difference to the first leaf on a way. -/
theorem Opened.firstLeaf?_eq {a a' : Arena} {path : KeyPath} (h : Opened a a' path)
    (done rest : List Segment) : firstLeaf? a' done rest = firstLeaf? a done rest := by
  unfold firstLeaf?
  congr 1
  funext p
  rw [h p]
  by_cases hp : a.kind? p = none ∧ p = path
  · rw [if_pos hp, hp.1]
    rfl
  · rw [if_neg hp]

/-- To go on from an interior node opens nothing. -/
theorem opened_of_interior {a : Arena} {path : KeyPath} (h : a.kind? path = some .interior) :
    Opened a a path := by
  intro p
  rw [if_neg]
  rintro ⟨hnone, rfl⟩
  rw [h] at hnone
  cases hnone

theorem opened_addChild {a : Arena} {id : Nat} {path : KeyPath} {segment : Segment} (h : a.Sound)
    {child : Node} (hf : a.Appendable id path segment child) (hkind : child.kind = .interior)
    (hnone : a.kind? (path.child segment) = none) :
    Opened a (a.addChild id segment child).1 (path.child segment) := by
  intro p
  rw [Arena.Sound.kind?_addChild hf h p, hkind]
  by_cases hp : p = path.child segment
  · rw [if_pos hp, if_pos ⟨hp ▸ hnone, hp⟩]
  · rw [if_neg hp, if_neg fun hboth => hp hboth.2]

theorem Descended.cons {a a₁ a' : Arena} {done rest : List Segment} {segment : Segment} {id' : Nat}
    (h : Descended a₁ (done ++ [segment]) rest a' id')
    (hopened : Opened a a₁ ⟨done ++ [segment]⟩) : Descended a done (segment :: rest) a' id' := by
  have happend : done ++ segment :: rest = done ++ [segment] ++ rest := by simp
  refine ⟨h.sound, by rw [happend]; exact h.reached, by rw [happend]; exact h.interior, ?_⟩
  intro p
  rw [h.kind? p, hopened p]
  simp only [beginnings, List.mem_cons]
  by_cases hp : p = ⟨done ++ [segment]⟩
  · subst hp
    cases a.kind? ⟨done ++ [segment]⟩ <;> simp
  · simp [hp]

/-- **How the way down ends**: at the first leaf, or behind all of its steps. -/
def Ends (a : Arena) (done rest : List Segment) (outcome : Except KeyPath (Arena × Nat)) : Prop :=
  match firstLeaf? a done rest with
  | some p => outcome = .error p
  | none => ∃ a' id', outcome = .ok (a', id') ∧ Descended a done rest a' id'

theorem Ends.cons {a a₁ : Arena} {done rest : List Segment} {segment : Segment}
    {outcome : Except KeyPath (Arena × Nat)} (h : Ends a₁ (done ++ [segment]) rest outcome)
    (hopened : Opened a a₁ ⟨done ++ [segment]⟩) (hleaf : a.kind? ⟨done ++ [segment]⟩ ≠ some .leaf) :
    Ends a done (segment :: rest) outcome := by
  unfold Ends at h ⊢
  rw [hopened.firstLeaf?_eq] at h
  rw [firstLeaf?_cons, if_neg hleaf]
  cases hfirst : firstLeaf? a (done ++ [segment]) rest with
  | some p =>
    rw [hfirst] at h
    exact h
  | none =>
    rw [hfirst] at h
    obtain ⟨a', id', hend, hdescended⟩ := h
    exact ⟨a', id', hend, hdescended.cons hopened⟩

/-- **The way down ends at the first leaf, or leads to its end.** -/
theorem descend_spec {a : Arena} {id : Nat} {done : List Segment} (h : a.Sound)
    (hid : a.follow? Arena.root done = some id) (hkind : a.kind? ⟨done⟩ = some .interior)
    (rest : List Segment) : Ends a done rest (descend a id done rest) := by
  induction rest generalizing a id done with
  | nil =>
    refine ⟨a, id, rfl, h, ?_, ?_, ?_⟩
    · rwa [List.append_nil]
    · rwa [List.append_nil]
    · intro p
      rw [if_neg (by simp [beginnings])]
  | cons segment rest ih =>
    have hconcat := Arena.kind?_concat hid segment
    cases hchild : a.child? id segment with
    | none =>
      have hnone : a.kind? ⟨done ++ [segment]⟩ = none := by
        rw [hconcat, hchild]
        rfl
      have hf : a.Appendable id ⟨done⟩ segment (.interior ⟨done ++ [segment]⟩ []) :=
        h.appendable hid hkind hchild rfl rfl
      have hreached := Arena.follow?_addChild hf h (done ++ [segment])
      rw [if_pos rfl] at hreached
      have hinterior : (a.addChild id segment (.interior ⟨done ++ [segment]⟩ [])).1.kind?
          ⟨done ++ [segment]⟩ = some .interior :=
        (Arena.Sound.kind?_addChild hf h _).trans (if_pos rfl)
      rw [descend_of_none hchild]
      refine (ih (Arena.Sound.addChild hf h) hreached hinterior).cons
        (opened_addChild h hf rfl hnone) ?_
      rw [hnone]
      decide
    | some child =>
      obtain ⟨m, hm⟩ := h.node?_of_child? hchild
      rw [hchild, Option.bind_some, hm, Option.map_some] at hconcat
      cases m with
      | leaf path =>
        have hleaf : a.kind? ⟨done ++ [segment]⟩ = some .leaf := hconcat
        unfold Ends
        rw [firstLeaf?_cons, if_pos hleaf]
        exact descend_of_leaf hchild hm
      | interior path children =>
        have hinterior : a.kind? ⟨done ++ [segment]⟩ = some .interior := hconcat
        have hreached : a.follow? Arena.root (done ++ [segment]) = some child := by
          rw [Arena.follow?_concat, hid, Option.bind_some, hchild]
        rw [descend_of_interior hchild hm]
        refine (ih h hreached hinterior).cons (opened_of_interior hinterior) ?_
        rw [hinterior]
        decide

end Phrasebook.Catalogue
