import Phrasebook.Artifact.Runtime
import Phrasebook.Proofs.Script.Layout
import Phrasebook.Proofs.Script.Object

/-! # Reading the objects of the runtime module

A reader of the objects that the runtime module is made of. It is given a reader of what a leaf
gives for a locale, and what to make of the nested objects and the leaves of a node
(`Runtime.readNode?`). The script of a leaf is read as a call (`Runtime.readsValue_leafScript`), and
the object of a walk as a node (`Runtime.readNode?_object`). -/

namespace Phrasebook.Runtime

/-! ### The reader -/

/-- The call of `reactive` that a text begins with, which is a key and a value for each locale, and
what is left. -/
def call? (value? : Text → Option (Text × Text)) (t : Text) :
    Option ((Text × List (Text × Text)) × Text) :=
  (Text.dropBeginning? "reactive(" t).bind fun t =>
    (Script.string? t).bind fun (key, t) =>
      (Text.dropBeginning? ", " t).bind fun t =>
        (Script.object? value? t).bind fun (values, t) =>
          (Text.dropBeginning? ")" t).map fun t => ((key, values), t)

section Reader
variable {α β : Type} (leaf? : Text → Option (β × Text))
  (make : List (Text × α) → List (Text × β) → α)

/-- The node that a text begins with, down to a number of levels, and what is left. -/
def node? : Nat → Text → Option (α × Text)
  | 0, _ => none
  | levels + 1, t =>
    (Text.dropBeginning? "Object.freeze(" t).bind fun t =>
      match Text.dropBeginning? "Object.defineProperties(" t with
      | none =>
        (Script.object? (node? levels) t).bind fun (nested, t) =>
          (Text.dropBeginning? ")" t).map fun t => (make nested [], t)
      | some t =>
        (Script.object? (node? levels) t).bind fun (nested, t) =>
          (Text.dropBeginning? ", " t).bind fun t =>
            (Script.object? leaf? t).bind fun (leaves, t) =>
              (Text.dropBeginning? "))" t).map fun t => (make nested leaves, t)

/-- **The node that a whole text is.** It has fewer levels than the text has code points. -/
def readNode? (t : Text) : Option α :=
  match node? leaf? make t.length t with
  | some (node, []) => some node
  | _ => none

end Reader

/-! ### Leaves -/

/-- **The script of a leaf is read** if its values are. -/
theorem readsValue_leafScript {value? : Text → Option (Text × Text)} {showing : Showing}
    {next : Nat} {e : Entry} {values : List (Text × Text)}
    (h : List.Forall₂ (Script.ReadsProperty value?) (localized showing next e) values) :
    Script.ReadsValue (call? value?) (leafScript showing next e).render (e.key, values) := by
  intro pad hpad stop rest _
  have htext : (leafScript showing next e).render = "reactive(" ++ (e.key.quoted ++ (", " ++
      ((Code.object (localized showing next e)).render ++ ")"))) := by
    unfold leafScript
    simp only [Code.render_call_plain, String.reduceAppend, List.map_cons, List.map_nil, Text.join,
      List.intercalate_cons_cons, List.intercalate_singleton, Fragment.render_plain,
      Fragment.render_code, List.append_assoc]
  have hopen : Unbroken "reactive(" := by decide
  have hcomma : Unbroken ", " := by decide
  have hclose : Unbroken ")" := by decide
  have hkey : ∀ t : Text, Script.string? (e.key.quoted ++ (Text.ofString ", " ++ t)) =
      some (e.key, Text.ofString ", " ++ t) :=
    fun t => Script.string?_quoted e.key (c := CodePoint.ofChar ',') (by decide) _
  rw [htext, hopen.padAfterBreaks_append, (unbroken_quoted e.key).padAfterBreaks_append,
    hcomma.padAfterBreaks_append, Code.padAfterBreaks_append, hclose.padAfterBreaks]
  simp only [call?, List.append_assoc, Text.dropBeginning?_append, Option.bind_some, hkey,
    Script.object?_append hpad h, Option.map_some]

/-! ### Nodes -/

theorem render_object_nil {w : Walk} (h : w.reactive = []) :
    w.object.render = "Object.freeze(" ++ ((Code.object w.nested).render ++ ")") := by
  unfold Walk.object
  rw [h]
  simp only [Code.render_call_plain, String.reduceAppend, List.map_cons, List.map_nil, Text.join,
    List.intercalate_singleton, Fragment.render_code]

theorem render_object_cons {w : Walk} (h : w.reactive ≠ []) :
    w.object.render = "Object.freeze(" ++ ("Object.defineProperties(" ++
      ((Code.object w.nested).render ++ (", " ++ ((Code.object w.reactive).render ++ "))")))) := by
  obtain ⟨first, rest, hw⟩ := List.exists_cons_of_ne_nil h
  have hclose : Text.ofString "))" = Text.ofString ")" ++ Text.ofString ")" :=
    Text.ofString_append ")" ")"
  unfold Walk.object
  rw [hw]
  simp only [Code.render_call_plain, String.reduceAppend, List.map_cons, List.map_nil, Text.join,
    List.intercalate_singleton, List.intercalate_cons_cons, Fragment.render_code, hclose,
    List.append_assoc]

theorem length_lt_object {w : Walk} {p : Code.PropertyName × Fragment} (h : p ∈ w.nested) :
    p.2.render.length < w.object.render.length := by
  have hnested := Script.length_lt_object h
  by_cases hw : w.reactive = []
  · rw [render_object_nil hw]
    simp only [List.length_append]
    omega
  · rw [render_object_cons hw]
    simp only [List.length_append]
    omega

theorem object_ne_nil (w : Walk) : w.object.render ≠ [] := by
  by_cases hw : w.reactive = []
  · rw [render_object_nil hw]
    exact nofun
  · rw [render_object_cons hw]
    exact nofun

section Node
variable {α β : Type} {leaf? : Text → Option (β × Text)}
  {make : List (Text × α) → List (Text × β) → α} {w : Walk} {nested : List (Text × α)}
  {leaves : List (Text × β)}

/-- **The object of a walk is read** if its nested objects and its leaves are. -/
theorem node?_append {levels : Nat}
    (hnested : List.Forall₂ (Script.ReadsProperty (node? leaf? make levels)) w.nested nested)
    (hleaves : List.Forall₂ (Script.ReadsProperty leaf?) w.reactive leaves) {pad : Text}
    (hpad : Spaces pad) (rest : Text) :
    node? leaf? make (levels + 1) (Code.padAfterBreaks pad w.object.render ++ rest) =
      some (make nested leaves, rest) := by
  have hfreeze : Unbroken "Object.freeze(" := by decide
  have hdefine : Unbroken "Object.defineProperties(" := by decide
  have hcomma : Unbroken ", " := by decide
  by_cases hw : w.reactive = []
  · obtain rfl : leaves = [] := by
      rw [hw] at hleaves
      exact List.forall₂_nil_left_iff.mp hleaves
    have hclose : Unbroken ")" := by decide
    have hplain : ∀ t : Text, Text.dropBeginning? "Object.defineProperties("
        (Code.padAfterBreaks pad (Code.object w.nested).render ++ t) = none := by
      intro t
      obtain ⟨inner, hinner⟩ := Script.exists_render_object w.nested
      rw [hinner]
      exact Text.dropBeginning?_cons_of_ne (by decide) _ _
    rw [render_object_nil hw, hfreeze.padAfterBreaks_append, Code.padAfterBreaks_append,
      hclose.padAfterBreaks]
    simp only [node?, List.append_assoc, Text.dropBeginning?_append, Option.bind_some, hplain,
      Script.object?_append hpad hnested, Option.map_some]
  · have hclose : Unbroken "))" := by decide
    rw [render_object_cons hw, hfreeze.padAfterBreaks_append, hdefine.padAfterBreaks_append,
      Code.padAfterBreaks_append, hcomma.padAfterBreaks_append, Code.padAfterBreaks_append,
      hclose.padAfterBreaks]
    simp only [node?, List.append_assoc, Text.dropBeginning?_append, Option.bind_some,
      Script.object?_append hpad hnested, Script.object?_append hpad hleaves, Option.map_some]

theorem readsValue_object {levels : Nat}
    (hnested : List.Forall₂ (Script.ReadsProperty (node? leaf? make levels)) w.nested nested)
    (hleaves : List.Forall₂ (Script.ReadsProperty leaf?) w.reactive leaves) :
    Script.ReadsValue (node? leaf? make (levels + 1)) w.object.render (make nested leaves) :=
  fun _ hpad _ _ _ => node?_append hnested hleaves hpad _

theorem exists_below {levels : Nat} (h : w.object.render.length ≤ levels) :
    ∃ below, levels = below + 1 ∧ ∀ p ∈ w.nested, p.2.render.length ≤ below := by
  have hpositive := List.length_pos_iff.mpr (object_ne_nil w)
  refine ⟨levels - 1, by omega, fun p hp => ?_⟩
  have hlt := length_lt_object hp
  omega

/-- **The whole object of a walk is read**, at any indentation. -/
theorem readNode?_object {pad : Text} (hpad : Spaces pad) {levels : Nat}
    (hlevels : (Code.padAfterBreaks pad w.object.render).length = levels + 1)
    (hnested : List.Forall₂ (Script.ReadsProperty (node? leaf? make levels)) w.nested nested)
    (hleaves : List.Forall₂ (Script.ReadsProperty leaf?) w.reactive leaves) :
    readNode? leaf? make (Code.padAfterBreaks pad w.object.render) = some (make nested leaves) := by
  have hnode := node?_append hnested hleaves hpad []
  rw [List.append_nil] at hnode
  unfold readNode?
  rw [hlevels, hnode]

end Node

end Phrasebook.Runtime
