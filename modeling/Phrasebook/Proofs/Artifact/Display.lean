import Phrasebook.Proofs.Artifact.Arrangement
import Phrasebook.Proofs.Artifact.Declarations
import Phrasebook.Proofs.Artifact.Shape

/-! # How both modules display a schema

The object that the runtime module creates and the type that the declaration module gives it are
read as nested properties, with a layer reader of their own each (`Runtime.layer?`,
`Declarations.layer?`). What is read is the view of the schema; the runtime module has nested objects
before leaves. -/

namespace Phrasebook

open Lexer

theorem Script.isLead_nil : IsLead [] := ⟨passes_nil _, List.not_mem_nil, nofun⟩

/-- The nested properties below some children, in their order, with labels for the leaves. -/
def Shape.ofChildren {α : Type} (label : KeyPath → α) :
    List (Segment × Outline) → List (Text × Shape α)
  | [] => []
  | (segment, .leaf path) :: rest =>
    (segment.toText, .leaf (label path)) :: ofChildren label rest
  | (segment, .interior _ below) :: rest =>
    (segment.toText, .node (ofChildren label below)) :: ofChildren label rest

/-! ### The runtime module -/

namespace Runtime

/-- **One layer of the runtime object**: the key of a leaf, or the nested objects of a node and its
leaves. -/
def layer? (t : Text) : Option (Shape.Layer Text) :=
  match Text.between? "reactive(" ")" t with
  | some inner => (Script.string? inner).map fun (key, _) => .leaf key
  | none =>
    (Text.between? "Object.freeze(" ")" t).bind fun inner =>
      match Text.between? "Object.defineProperties(" ")" inner with
      | none => (Script.members? [] inner).map .node
      | some inner =>
        let (nested, rest) := Lexer.item {} inner
        (Text.dropBeginning? ", " rest).bind fun leaves =>
          (Script.members? [] nested).bind fun nested =>
            (Script.members? [] leaves).map fun leaves => .node (nested ++ leaves)

/-- The nested objects and the leaves below some children, with the keys of the leaves. -/
def shapes : List (Segment × Outline) → List (Text × Shape Text) × List (Text × Shape Text)
  | [] => ([], [])
  | (segment, .leaf path) :: rest =>
    ((shapes rest).1, (segment.toText, .leaf path.key) :: (shapes rest).2)
  | (segment, .interior _ below) :: rest =>
    ((segment.toText, .node ((shapes below).1 ++ (shapes below).2)) :: (shapes rest).1,
      (shapes rest).2)

theorem displays_leafScript {e : Entry} (h : e.Balanced) (showing : Showing) (next : Nat) :
    Shape.Displays layer? (leafScript showing next e).render (.leaf e.key) := by
  have hcall : Wraps "reactive(" ")" :=
    ⟨⟨[.round], by decide, rfl, rfl⟩, by decide, by decide⟩
  have hcomma : Lexer.Balanced ", " := by decide
  let inner : Text := e.key.quoted ++ (", " ++ (Code.object (localized showing next e)).render)
  have hinner : Lexer.Balanced inner := (balanced_quoted e.key).append
    (hcomma.append (balanced_object (balanced_localized showing next h)))
  have htext : (leafScript showing next e).render = "reactive(" ++ inner ++ ")" := by
    unfold leafScript
    simp only [Code.render_call_plain, String.reduceAppend, List.map_cons, List.map_nil, Text.join,
      List.intercalate_cons_cons, List.intercalate_singleton, Fragment.render_plain,
      Fragment.render_code, List.append_assoc, inner]
  intro pad hpad
  have hkey : Script.string? (Code.padAfterBreaks pad inner) = some (e.key, Code.padAfterBreaks pad
      (", " ++ (Code.object (localized showing next e)).render)) := by
    rw [(unbroken_quoted e.key).padAfterBreaks_append]
    exact Script.string?_quoted e.key (c := CodePoint.ofChar ',') (by decide) _
  rw [htext, hcall.padAfterBreaks]
  refine ⟨hcall.solid (hinner.padAfterBreaks hpad), Shape.reads_leaf ?_⟩
  unfold layer?
  rw [Text.between?_append]
  simp only [hkey, Option.map_some]

theorem layer?_frozen {nested : Text} (h : ∃ t, nested = CodePoint.openBrace :: t)
    {members : List (Text × Text)} (hmembers : Script.members? [] nested = some members) :
    layer? ("Object.freeze(" ++ nested ++ ")") = some (.node members) := by
  obtain ⟨t, rfl⟩ := h
  have hleaf : Text.between? "reactive(" ")"
      ("Object.freeze(" ++ CodePoint.openBrace :: t ++ ")") = none :=
    Text.between?_of_ne (by decide) _ _ _
  have hplain : Text.between? "Object.defineProperties(" ")" (CodePoint.openBrace :: t) = none :=
    Text.between?_of_ne (by decide) _ _ _
  unfold layer?
  rw [hleaf, Text.between?_append]
  simp only [Option.bind_some, hplain, hmembers, Option.map_some]

theorem layer?_defined {nested leaves : Text} (h : Solid nested)
    {nestedMembers leafMembers : List (Text × Text)}
    (hnested : Script.members? [] nested = some nestedMembers)
    (hleaves : Script.members? [] leaves = some leafMembers) :
    layer? ("Object.freeze(" ++
      ("Object.defineProperties(" ++ (nested ++ (", " ++ leaves)) ++ ")") ++ ")") =
        some (.node (nestedMembers ++ leafMembers)) := by
  have hleaf : ∀ t : Text, Text.between? "reactive(" ")" ("Object.freeze(" ++ t ++ ")") = none :=
    fun t => Text.between?_of_ne (by decide) _ _ _
  have hitem : Lexer.item {} (nested ++ (", " ++ leaves)) = (nested, ", " ++ leaves) :=
    h.item_append (c := CodePoint.ofChar ',') (by decide) _
  unfold layer?
  rw [hleaf, Text.between?_append]
  simp only [Option.bind_some, Text.between?_append, hitem, Text.dropBeginning?_append, hnested,
    hleaves, Option.map_some]

theorem wraps_freeze : Wraps "Object.freeze(" ")" :=
  ⟨⟨[.round], by decide, rfl, rfl⟩, by decide, by decide⟩

theorem wraps_define : Wraps "Object.defineProperties(" ")" :=
  ⟨⟨[.round], by decide, rfl, rfl⟩, by decide, by decide⟩

section Object
variable {w : Walk} (hw : w.Balanced) {nested leaves : List (Text × Shape Text)}
  (hnested : List.Forall₂ (Shape.DisplaysProperty layer? []) w.nested nested)
include hw hnested

/-- An object of nested objects only. -/
theorem displays_frozen (hreactive : w.reactive = []) :
    Shape.Displays layer? w.object.render (.node nested) := by
  have hobject := balanced_object hw.nested
  have htext : w.object.render = "Object.freeze(" ++ (Code.object w.nested).render ++ ")" := by
    rw [render_object_nil hreactive, List.append_assoc]
  intro pad hpad
  obtain ⟨members, hmembers⟩ := Shape.exists_members Script.isLead_nil hpad hnested
  have hbrace : ∃ t, Code.padAfterBreaks pad (Code.object w.nested).render =
      CodePoint.openBrace :: t := by
    obtain ⟨t, ht⟩ := Script.exists_render_object w.nested
    exact ⟨Code.padAfterBreaks pad t, congrArg (Code.padAfterBreaks pad) ht⟩
  rw [htext, wraps_freeze.padAfterBreaks]
  refine ⟨wraps_freeze.solid (hobject.padAfterBreaks hpad),
    Shape.reads_node (layer?_frozen hbrace hmembers.members?) ?_ hmembers.reads⟩
  intro m hm
  have hshorter := hmembers.shorter m hm
  simp only [List.length_append]
  omega

/-- An object with leaves. -/
theorem displays_defined (hreactive : w.reactive ≠ [])
    (hleaves : List.Forall₂ (Shape.DisplaysProperty layer? []) w.reactive leaves) :
    Shape.Displays layer? w.object.render (.node (nested ++ leaves)) := by
  have hcomma : Unbroken ", " := by decide
  have hdefine : Encloses "Object.defineProperties(" ")" := ⟨_, rfl, rfl⟩
  let inner : Text := (Code.object w.nested).render ++ (", " ++ (Code.object w.reactive).render)
  have hinner : Lexer.Balanced inner :=
    (balanced_object hw.nested).append
      (Lexer.Balanced.append (by decide) (balanced_object hw.reactive))
  have htext : w.object.render =
      "Object.freeze(" ++ ("Object.defineProperties(" ++ inner ++ ")") ++ ")" := by
    have hclose : Text.ofString "))" = Text.ofString ")" ++ Text.ofString ")" :=
      Text.ofString_append ")" ")"
    rw [render_object_cons hreactive, hclose]
    simp only [List.append_assoc, inner]
  intro pad hpad
  obtain ⟨members, hmembers⟩ := Shape.exists_members Script.isLead_nil hpad hnested
  obtain ⟨leafMembers, hleafMembers⟩ := Shape.exists_members Script.isLead_nil hpad hleaves
  have hpadded : Code.padAfterBreaks pad w.object.render = "Object.freeze(" ++
      ("Object.defineProperties(" ++ (Code.padAfterBreaks pad (Code.object w.nested).render ++
        (", " ++ Code.padAfterBreaks pad (Code.object w.reactive).render)) ++ ")") ++ ")" := by
    rw [htext, wraps_freeze.padAfterBreaks, wraps_define.padAfterBreaks, Code.padAfterBreaks_append,
      hcomma.padAfterBreaks_append]
  have hsolid : Solid (Code.padAfterBreaks pad w.object.render) := by
    rw [htext, wraps_freeze.padAfterBreaks]
    exact wraps_freeze.solid ((hdefine.balanced hinner).padAfterBreaks hpad)
  refine ⟨hsolid, ?_⟩
  rw [hpadded]
  refine Shape.reads_node (layer?_defined (solid_object hw.nested hpad) hmembers.members?
    hleafMembers.members?) ?_ (List.rel_append hmembers.reads hleafMembers.reads)
  intro m hm
  simp only [List.length_append]
  rcases List.mem_append.mp hm with hm | hm
  · have hshorter := hmembers.shorter m hm
    omega
  · have hshorter := hleafMembers.shorter m hm
    omega

/-- **The object of a walk** displays what its properties display. -/
theorem displays_object
    (hleaves : List.Forall₂ (Shape.DisplaysProperty layer? []) w.reactive leaves) :
    Shape.Displays layer? w.object.render (.node (nested ++ leaves)) := by
  by_cases hreactive : w.reactive = []
  · rw [hreactive] at hleaves
    rw [List.forall₂_nil_left_iff.mp hleaves, List.append_nil]
    exact displays_frozen hw hnested hreactive
  · exact displays_defined hw hnested hreactive hleaves

end Object

section Walk
variable {Nested Leaf : Code.PropertyName × Fragment → Text × Shape Text → Prop} {c : Catalogue}
  {showing : Showing}
  (hleaf : ∀ {path : KeyPath} {e : Entry} (name : Text) (next : Nat), c.entry? path = some e →
    Leaf (.text name, .code (leafScript showing next e)) (name, .leaf e.key))
  (hobject : ∀ {below : List (Segment × Outline)} {next : Nat}
    {nested leaves : List (Text × Shape Text)} (name : Text),
    List.Forall₂ Nested (walkChildren c showing next below).nested nested →
      List.Forall₂ Leaf (walkChildren c showing next below).reactive leaves →
        Nested (.text name, .code (walkChildren c showing next below).object)
          (name, .node (nested ++ leaves)))
include hleaf hobject

/-- **A walk goes over what it meets** property by property, the nested objects and the leaves each
in their order. -/
theorem forall₂_walkChildren {p : KeyPath} {children : List (Segment × Outline)}
    (h : c.Arranges p children) (next : Nat) :
    List.Forall₂ Nested (walkChildren c showing next children).nested (shapes children).1 ∧
      List.Forall₂ Leaf (walkChildren c showing next children).reactive (shapes children).2 := by
  induction h generalizing next with
  | nil =>
    rw [walkChildren, shapes]
    exact ⟨.nil, .nil⟩
  | @leaf p name rest e hnew he hpath hrest ih =>
    have hfirst := hleaf name next he
    have hkey : e.key = (p.child (.name name)).key := congrArg KeyPath.key hpath
    rw [hkey] at hfirst
    rw [walkChildren, shapes, he]
    obtain ⟨hnested, hleaves⟩ := ih
      (next + (if showing = .snippets then declarations next e else []).length)
    exact ⟨hnested, .cons hfirst hleaves⟩
  | @interior p name below rest hnew hleaf hbelow hrest ihbelow ihrest =>
    rw [walkChildren, shapes]
    obtain ⟨hnested, hleaves⟩ := ihbelow next
    obtain ⟨hothers, hotherLeaves⟩ := ihrest
      (next + (walkChildren c showing next below).declarations.length)
    exact ⟨.cons (hobject name hnested hleaves) hothers, hotherLeaves⟩

end Walk

theorem displays_walkChildren {c : Catalogue} (hc : c.Balanced) (showing : Showing) {p : KeyPath}
    {children : List (Segment × Outline)} (h : c.Arranges p children) (next : Nat) :
    List.Forall₂ (Shape.DisplaysProperty layer? []) (walkChildren c showing next children).nested
        (shapes children).1 ∧
      List.Forall₂ (Shape.DisplaysProperty layer? [])
        (walkChildren c showing next children).reactive (shapes children).2 :=
  forall₂_walkChildren
    (fun _ next he => ⟨rfl, displays_leafScript (hc.entry? he) showing next⟩)
    (fun _ hnested hleaves =>
      ⟨rfl, displays_object (balanced_walkChildren hc showing _ _) hnested hleaves⟩) h next

end Runtime

/-! ### The declaration module -/

namespace Declarations

/-- **One layer of the declared type**: that of a leaf, or the properties of an object type. -/
def layer? (t : Text) : Option (Shape.Layer Unit) :=
  if t.head? = some CodePoint.openBrace then (Script.members? "readonly " t).map .node
  else some (.leaf ())

theorem isLead_readonly : Script.IsLead "readonly " := by
  refine ⟨passes_of_pass? rfl, by decide, ?_⟩
  intro c rest h
  obtain ⟨rfl, -⟩ := List.cons.inj h
  decide

theorem displays_plain {t : Text} (hsolid : Solid t) (hline : Unbroken t)
    (hhead : t.head? ≠ some CodePoint.openBrace) : Shape.Displays layer? t (.leaf ()) := by
  intro pad _
  rw [hline.padAfterBreaks]
  exact ⟨hsolid, Shape.reads_leaf (if_neg hhead)⟩

theorem displays_wrapped {before after t : Text} (h : Wraps before after) (ht : Lexer.Balanced t)
    (hhead : ∀ u, (before ++ u).head? ≠ some CodePoint.openBrace) :
    Shape.Displays layer? (before ++ t ++ after) (.leaf ()) := by
  intro pad hpad
  rw [h.padAfterBreaks]
  refine ⟨h.solid (ht.padAfterBreaks hpad), Shape.reads_leaf (if_neg ?_)⟩
  rw [List.append_assoc]
  exact hhead _

theorem displays_leafType (showing : Showing) (s : Signature) :
    Shape.Displays layer? (leafType showing s).render (.leaf ()) := by
  have hfunction : Wraps "(params: " ") => string" :=
    ⟨⟨[.round], by decide, rfl, rfl⟩, by decide, by decide⟩
  have hsnippet : Wraps "Snippet<[params: " "]>" :=
    ⟨⟨[.square], by decide, rfl, rfl⟩, by decide, by decide⟩
  have hhead : ∀ u : Text, ("(params: " ++ u).head? ≠ some CodePoint.openBrace := by
    intro u
    exact (by decide : some (CodePoint.ofChar '(') ≠ some CodePoint.openBrace)
  have hhead' : ∀ u : Text, ("Snippet<[params: " ++ u).head? ≠ some CodePoint.openBrace := by
    intro u
    exact (by decide : some (CodePoint.ofChar 'S') ≠ some CodePoint.openBrace)
  unfold leafType
  split
  · exact displays_plain (passes_of_pass? rfl) (by decide) (by decide)
  · rw [Fragment.render_code, render_enclosed]
    exact displays_wrapped hfunction (balanced_parameters _ s) hhead
  · exact displays_plain (passes_of_pass? rfl) (by decide) (by decide)
  · rw [Fragment.render_code, render_enclosed]
    exact displays_wrapped hsnippet (balanced_parameters _ s) hhead'

/-- **The type of a walk** displays what its properties display. -/
theorem displays_type {w : Walk} (hw : w.Balanced) {shapes : List (Text × Shape Unit)}
    (h : List.Forall₂ (Shape.DisplaysProperty layer? "readonly ") w.properties shapes) :
    Shape.Displays layer? w.type.render (.node shapes) := by
  intro pad hpad
  obtain ⟨members, hmembers⟩ := Shape.exists_members isLead_readonly hpad h
  have hhead : (Code.padAfterBreaks pad w.type.render).head? = some CodePoint.openBrace := by
    obtain ⟨t, ht⟩ := Script.exists_render_object w.properties
    have htext : w.type.render = CodePoint.openBrace :: t := ht
    rw [htext]
    rfl
  have hlayer : layer? (Code.padAfterBreaks pad w.type.render) = some (.node members) := by
    unfold layer?
    rw [if_pos hhead]
    exact congrArg (Option.map Shape.Layer.node) hmembers.members?
  exact ⟨solid_object hw.properties hpad,
    Shape.reads_node hlayer hmembers.shorter hmembers.reads⟩

section Walk
variable {Property : Code.PropertyName × Fragment → Text × Shape Unit → Prop} {c : Catalogue}
  {showing : Showing}
  (hleaf : ∀ (name : Text) (s : Signature),
    Property (readonly (.name name), leafType showing s) (name, .leaf ()))
  (hobject : ∀ {below : List (Segment × Outline)} {members : List (Text × Shape Unit)}
    (name : Text), List.Forall₂ Property (walkChildren c showing below).properties members →
      Property (readonly (.name name), .code (walkChildren c showing below).type)
        (name, .node members))
include hleaf hobject

/-- **A walk goes over what it meets** property by property. -/
theorem forall₂_walkChildren {p : KeyPath} {children : List (Segment × Outline)}
    (h : c.Arranges p children) : List.Forall₂ Property (walkChildren c showing children).properties
      (Shape.ofChildren (fun _ => ()) children) := by
  induction h with
  | nil =>
    rw [walkChildren, Shape.ofChildren]
    exact .nil
  | @leaf p name rest e hnew he hpath hrest ih =>
    rw [walkChildren, Shape.ofChildren, he]
    exact .cons (hleaf name e.signature) ih
  | @interior p name below rest hnew hleaf hbelow hrest ihbelow ihrest =>
    rw [walkChildren, Shape.ofChildren]
    exact .cons (hobject name ihbelow) ihrest

end Walk

theorem displays_walkChildren {c : Catalogue} (showing : Showing) {p : KeyPath}
    {children : List (Segment × Outline)} (h : c.Arranges p children) :
    List.Forall₂ (Shape.DisplaysProperty layer? "readonly ")
      (walkChildren c showing children).properties (Shape.ofChildren (fun _ => ()) children) :=
  forall₂_walkChildren (fun _ s => ⟨rfl, displays_leafType showing s⟩)
    (fun _ hmembers => ⟨rfl, displays_type (balanced_walkChildren c showing _) hmembers⟩) h

end Declarations

end Phrasebook
