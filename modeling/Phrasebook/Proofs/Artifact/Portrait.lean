import Phrasebook.Proofs.Artifact.Objects
import Phrasebook.Proofs.Artifact.Runtime

/-! # Reading the object of translations

A reader of the objects that the runtime module is made of: the nested objects of a node with their
names, and its leaves with their names, their keys and the scripts of their locales (`Portrait.read`).
The object of a walk is read as the portrait of what was walked (`read_object`). -/

namespace Phrasebook

/-- **A portrait of a node**: the names of its nested objects with their portraits, and the names of
its leaves, each with its key and with the script of each locale. -/
inductive Portrait where
  | node (nested : List (Text × Portrait)) (leaves : List (Text × Text × List (Text × Text)))

namespace Portrait

/-! ### The reader -/

/-- The key and the scripts of the leaf that a text begins with, and what is left. -/
def leaf? (t : Text) : Option ((Text × List (Text × Text)) × Text) :=
  (Text.dropBeginning? "reactive(" t).bind fun t =>
    (Script.string? t).bind fun (key, t) =>
      (Text.dropBeginning? ", " t).bind fun t =>
        (Script.object? Script.script? t).bind fun (scripts, t) =>
          (Text.dropBeginning? ")" t).map fun t => ((key, scripts), t)

/-- The node that a text begins with, down to a number of levels, and what is left. -/
def node? : Nat → Text → Option (Portrait × Text)
  | 0, _ => none
  | levels + 1, t =>
    (Text.dropBeginning? "Object.freeze(" t).bind fun t =>
      match Text.dropBeginning? "Object.defineProperties(" t with
      | none =>
        (Script.object? (node? levels) t).bind fun (nested, t) =>
          (Text.dropBeginning? ")" t).map fun t => (.node nested [], t)
      | some t =>
        (Script.object? (node? levels) t).bind fun (nested, t) =>
          (Text.dropBeginning? ", " t).bind fun t =>
            (Script.object? leaf? t).bind fun (leaves, t) =>
              (Text.dropBeginning? "))" t).map fun t => (.node nested leaves, t)

/-- **The portrait that a whole text is.** It has fewer levels than the text has code points. -/
def read (t : Text) : Option Portrait :=
  match node? t.length t with
  | some (portrait, []) => some portrait
  | _ => none

/-! ### What is portrayed -/

/-- The nested objects and the leaves below some children. -/
def ofChildren (c : Catalogue) :
    List (Segment × Outline) → List (Text × Portrait) × List (Text × Text × List (Text × Text))
  | [] => ([], [])
  | (segment, .interior _ below) :: rest =>
    ((segment.toText, .node (ofChildren c below).1 (ofChildren c below).2) ::
      (ofChildren c rest).1, (ofChildren c rest).2)
  | (segment, .leaf path) :: rest =>
    ((ofChildren c rest).1,
      ((c.entry? path).map fun e => (segment.toText, e.key, e.expressions)).toList ++
        (ofChildren c rest).2)

/-- The scripts of all locales can be read, and each is on one line. -/
def Legible (c : Catalogue) : Prop := ∀ entry ∈ c.entries, ∀ x ∈ entry.2.expressions,
  Unbroken x.2 ∧ ∃ program, Script.read x.2 = some program

/-! ### Leaves -/

theorem readsValue_script {t : Text} (h : Unbroken t) {program : Script.Program}
    (hread : Script.read t = some program) : Script.ReadsValue Script.script? t t := by
  intro pad _ c rest hc
  rw [h.padAfterBreaks]
  exact Script.script?_append hread hc rest

theorem readsValue_leaf {c : Catalogue} (hc : Legible c) {path : KeyPath} {e : Entry}
    (he : c.entry? path = some e) (next : Nat) :
    Script.ReadsValue leaf? (Runtime.leafScript .translations next e).render
      (e.key, e.expressions) := by
  have hscripts : List.Forall₂ (Script.ReadsProperty Script.script?)
      (Runtime.localized .translations next e) e.expressions := by
    unfold Runtime.localized
    rw [List.forall₂_map_left_iff, List.forall₂_same]
    intro x hx
    obtain ⟨hline, program, hread⟩ := hc _ (OrderedMap.mem_of_get? he) x hx
    exact ⟨rfl, readsValue_script hline hread⟩
  exact Runtime.readsValue_leafScript hscripts

/-! ### Nodes -/

theorem node?_eq : ∀ levels, node? levels = Runtime.node? leaf? node levels
  | 0 => rfl
  | levels + 1 => by
    funext t
    rewrite [node?, Runtime.node?, node?_eq levels]
    rfl

theorem read_eq (t : Text) : read t = Runtime.readNode? leaf? node t := by
  unfold read Runtime.readNode?
  rw [node?_eq]
  cases Runtime.node? leaf? node t.length t with
  | none => rfl
  | some result =>
    obtain ⟨portrait, left⟩ := result
    cases left with
    | nil => rfl
    | cons c left => rfl

/-! ### Walks -/

/-- **What a walk gives is read** as the portraits of what it meets, if there are at least as many
levels as a nested object has code points. -/
theorem reads_walkChildren {c : Catalogue} (hc : Legible c) :
    ∀ (children : List (Segment × Outline)) (next levels : Nat),
      (∀ p ∈ (Runtime.walkChildren c .translations next children).nested,
        p.2.render.length ≤ levels) →
      List.Forall₂ (Script.ReadsProperty (node? levels))
          (Runtime.walkChildren c .translations next children).nested (ofChildren c children).1 ∧
        List.Forall₂ (Script.ReadsProperty leaf?)
          (Runtime.walkChildren c .translations next children).reactive (ofChildren c children).2
  | [], next, levels, _ => by
    rw [Runtime.walkChildren, ofChildren]
    exact ⟨.nil, .nil⟩
  | (segment, .leaf path) :: rest, next, levels, h => by
    rw [Runtime.walkChildren] at h ⊢
    rw [ofChildren]
    cases he : c.entry? path with
    | none =>
      rw [he] at h
      exact reads_walkChildren hc rest next levels h
    | some e =>
      rw [he] at h
      obtain ⟨hnested, hleaves⟩ := reads_walkChildren hc rest _ levels h
      exact ⟨hnested, .cons ⟨rfl, readsValue_leaf hc he next⟩ hleaves⟩
  | (segment, .interior path children) :: rest, next, levels, h => by
    rw [Runtime.walkChildren] at h ⊢
    rw [ofChildren]
    obtain ⟨hinner, hothers⟩ := List.forall_mem_cons.mp h
    obtain ⟨hnested, hleaves⟩ := reads_walkChildren hc rest _ levels hothers
    obtain ⟨below, rfl, hbelow⟩ := Runtime.exists_below hinner
    obtain ⟨hreads, hreadsLeaves⟩ := reads_walkChildren hc children next below hbelow
    rw [node?_eq] at hreads
    have hobject := Runtime.readsValue_object hreads hreadsLeaves
    rw [← node?_eq] at hobject
    exact ⟨.cons ⟨rfl, hobject⟩ hnested, hleaves⟩

/-- **The object of translations is read** as the portrait of the schema. -/
theorem read_object {c : Catalogue} (hc : Legible c) :
    read (Runtime.walk c .translations).object.render =
      some (.node (ofChildren c (c.view .translations).children).1
        (ofChildren c (c.view .translations).children).2) := by
  obtain ⟨levels, hlevels, hbelow⟩ := Runtime.exists_below
    (Code.length_le_padAfterBreaks [] (Runtime.walk c .translations).object.render)
  obtain ⟨hreads, hreadsLeaves⟩ := reads_walkChildren hc _ 0 levels hbelow
  rw [node?_eq] at hreads
  have hread := Runtime.readNode?_object (List.forall_mem_nil _) hlevels hreads hreadsLeaves
  rw [Code.padAfterBreaks_nil] at hread
  rw [read_eq]
  exact hread

end Portrait

end Phrasebook
