import Phrasebook.Proofs.Artifact.Display

/-! # What the walks emit

Both walks emit nested properties: an object is put together from what the walk below it gives, and a
leaf is a call of `reactive` with its key in one module and the type of its texts in the other
(`Runtime.Emits`, `Declarations.Emits`). They emit the view of the schema whatever the script of the
templates is (`Runtime.emits_walkChildren`, `Declarations.emits_walkChildren`), also where the text
of an object cannot be read. -/

namespace Phrasebook

/-- A property has a name, and its value emits nested properties. -/
inductive Shape.EmitsProperty {α : Type} (nameOf : Text → Code.PropertyName)
    (Emits : Fragment → Shape α → Prop) : Code.PropertyName × Fragment → Text × Shape α → Prop where
  | intro (name : Text) {f : Fragment} {shape : Shape α} (h : Emits f shape) :
      EmitsProperty nameOf Emits (nameOf name, f) (name, shape)

namespace Runtime

/-- **A leaf of the runtime module** is a call of `reactive` with its key and the script of each
locale. -/
inductive EmitsLeaf : Fragment → Shape Text → Prop where
  | reactive (key : Text) (scripts : List (Code.PropertyName × Fragment)) :
      EmitsLeaf (.code (Code.call (Fragment.plain "reactive")
        [Fragment.plain key.quoted, Code.object scripts])) (.leaf key)

/-- **An object of the runtime module** has nested objects and leaves. -/
inductive Emits : Fragment → Shape Text → Prop where
  | object {w : Walk} {nested leaves : List (Text × Shape Text)}
      (hnested : List.Forall₂ (Shape.EmitsProperty .text Emits) w.nested nested)
      (hleaves : List.Forall₂ (Shape.EmitsProperty .text EmitsLeaf) w.reactive leaves) :
      Emits (.code w.object) (.node (nested ++ leaves))

/-- **What a walk gives emits** what it meets. -/
theorem emits_walkChildren {c : Catalogue} (showing : Showing) {p : KeyPath}
    {children : List (Segment × Outline)} (h : c.Arranges p children) (next : Nat) :
    List.Forall₂ (Shape.EmitsProperty .text Emits) (walkChildren c showing next children).nested
        (shapes children).1 ∧
      List.Forall₂ (Shape.EmitsProperty .text EmitsLeaf)
        (walkChildren c showing next children).reactive (shapes children).2 :=
  forall₂_walkChildren (fun name _ _ => .intro name (.reactive _ _))
    (fun name hnested hleaves => .intro name (.object hnested hleaves)) h next

end Runtime

namespace Declarations

/-- **A type of the declaration module** is that of a leaf, or has read-only properties. -/
inductive Emits (showing : Showing) : Fragment → Shape Unit → Prop where
  | leaf (s : Signature) : Emits showing (leafType showing s) (.leaf ())
  | object {w : Walk} {members : List (Text × Shape Unit)}
      (h : List.Forall₂ (Shape.EmitsProperty (fun name => readonly (.name name)) (Emits showing))
        w.properties members) :
      Emits showing (.code w.type) (.node members)

theorem emits_walkChildren {c : Catalogue} (showing : Showing) {p : KeyPath}
    {children : List (Segment × Outline)} (h : c.Arranges p children) :
    List.Forall₂ (Shape.EmitsProperty (fun name => readonly (.name name)) (Emits showing))
      (walkChildren c showing children).properties (Shape.ofChildren (fun _ => ()) children) :=
  forall₂_walkChildren (fun name s => .intro name (.leaf s))
    (fun name hmembers => .intro name (.object hmembers)) h

end Declarations

end Phrasebook
