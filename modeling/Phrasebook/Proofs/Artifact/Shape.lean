import Phrasebook.Proofs.Artifact.Portrait
import Phrasebook.Proofs.Artifact.Interface
import Phrasebook.Proofs.Script.Entries

/-! # Nested properties

A reader of the nested properties of an object, which is told how one layer of them is written
(`Shape.read`). Indented script is read at any indentation, given how its parts are
(`Shape.Displays`). -/

namespace Phrasebook

/-- **The nested properties of an object**, with something known about each property that holds no
further ones. -/
inductive Shape (α : Type) where
  | leaf (label : α)
  | node (properties : List (Text × Shape α))

namespace Shape

variable {α : Type}

/-! ### The reader -/

/-- One layer of nested properties: none, or their names with the texts of their values. -/
inductive Layer (α : Type) where
  | leaf (label : α)
  | node (members : List (Text × Text))

/-- The nested properties that a text is, down to a number of levels. -/
def readTo (layer? : Text → Option (Layer α)) : Nat → Text → Option (Shape α)
  | 0, _ => none
  | levels + 1, t =>
    match layer? t with
    | none => none
    | some (.leaf label) => some (.leaf label)
    | some (.node members) =>
      (members.mapM fun m => (readTo layer? levels m.2).map fun shape => (m.1, shape)).map .node

/-- **The nested properties that a whole text is.** A value is shorter than the text around it. -/
def read (layer? : Text → Option (Layer α)) (t : Text) : Option (Shape α) :=
  readTo layer? (t.length + 1) t

variable {layer? : Text → Option (Layer α)}

/-- A text is read as nested properties with more levels than it has code points. -/
def Reads (layer? : Text → Option (Layer α)) (t : Text) (shape : Shape α) : Prop :=
  ∀ levels, t.length < levels → readTo layer? levels t = some shape

theorem Reads.read {t : Text} {shape : Shape α} (h : Reads layer? t shape) :
    read layer? t = some shape :=
  h (t.length + 1) (Nat.lt_succ_self _)

theorem exists_level {t : Text} {levels : Nat} (hlevels : t.length < levels) :
    ∃ below, levels = below + 1 :=
  ⟨levels - 1, by omega⟩

theorem reads_leaf {t : Text} {label : α} (h : layer? t = some (.leaf label)) :
    Reads layer? t (.leaf label) := by
  intro levels hlevels
  obtain ⟨below, rfl⟩ := exists_level hlevels
  rw [readTo, h]

/-- **A node is read** when its members are; their texts are shorter than that of the node. -/
theorem reads_node {t : Text} {members : List (Text × Text)}
    {properties : List (Text × Shape α)} (h : layer? t = some (.node members))
    (hshorter : ∀ m ∈ members, m.2.length < t.length)
    (hmembers : List.Forall₂ (fun m x => m.1 = x.1 ∧ Reads layer? m.2 x.2) members properties) :
    Reads layer? t (.node properties) := by
  intro levels hlevels
  obtain ⟨below, rfl⟩ := exists_level hlevels
  have hread : (members.mapM fun m => (readTo layer? below m.2).map fun shape => (m.1, shape)) =
      some properties := by
    have hboth := (List.forall₂_and_left _ _).mpr ⟨hshorter, hmembers⟩
    refine mapM_eq_some (hboth.imp ?_)
    rintro m x ⟨hlt, hname, hvalue⟩
    have hbelow : readTo layer? below m.2 = some x.2 := hvalue below (by omega)
    rw [hbelow, hname]
    rfl
  rw [readTo, h]
  simp only [hread, Option.map_some]

/-! ### Indented script -/

/-- **Script is read as nested properties** at any indentation, and within one entry. -/
def Displays (layer? : Text → Option (Layer α)) (t : Text) (shape : Shape α) : Prop :=
  ∀ pad, Spaces pad → Lexer.Solid (Code.padAfterBreaks pad t) ∧
    Reads layer? (Code.padAfterBreaks pad t) shape

theorem Displays.read {t : Text} {shape : Shape α} (h : Displays layer? t shape) :
    read layer? t = some shape := by
  have hread := (h [] (List.forall_mem_nil _)).2
  rw [Code.padAfterBreaks_nil] at hread
  exact hread.read

/-- A property has a name after a lead, and its value is read as nested properties. -/
structure DisplaysProperty (layer? : Text → Option (Layer α)) (lead : Text)
    (p : Code.PropertyName × Fragment) (x : Text × Shape α) : Prop where
  name : (Code.propertyName [] p.1).render = lead ++ x.1.quoted
  value : Displays layer? p.2.render x.2

/-- The members of an object literal whose properties are read. -/
structure Members (layer? : Text → Option (Layer α)) (lead t : Text)
    (properties : List (Text × Shape α)) (members : List (Text × Text)) : Prop where
  members? : Script.members? lead t = some members
  shorter : ∀ m ∈ members, m.2.length < t.length
  reads : List.Forall₂ (fun m x => m.1 = x.1 ∧ Reads layer? m.2 x.2) members properties

theorem exists_members {lead pad : Text} (hlead : Script.IsLead lead) (hpad : Spaces pad)
    {properties : List (Code.PropertyName × Fragment)} {shapes : List (Text × Shape α)}
    (h : List.Forall₂ (DisplaysProperty layer? lead) properties shapes) :
    ∃ members, Members layer? lead (Code.padAfterBreaks pad (Code.object properties).render)
      shapes members := by
  have hexists : ∃ members, List.Forall₂ (Script.IsMember lead pad) properties members ∧
      List.Forall₂ (fun m x => m.1 = x.1 ∧ Reads layer? m.2 x.2) members shapes := by
    induction h with
    | nil => exact ⟨[], .nil, .nil⟩
    | @cons p x properties shapes hp _ ih =>
      obtain ⟨members, hmembers, hreads⟩ := ih
      obtain ⟨hsolid, hread⟩ := hp.value _ hpad.append_indentUnit
      exact ⟨(x.1, Code.padAfterBreaks (pad ++ Code.indentUnit) p.2.render) :: members,
        .cons ⟨hp.name, rfl, hsolid⟩ hmembers, .cons ⟨rfl, hread⟩ hreads⟩
  obtain ⟨members, hmembers, hreads⟩ := hexists
  exact ⟨members, Script.members?_object hlead hpad hmembers,
    Script.length_lt_of_isMember hlead hmembers, hreads⟩

end Shape

end Phrasebook
