import Phrasebook.Artifact.Declarations
import Phrasebook.Proofs.Artifact.Runtime
import Phrasebook.Proofs.Script.Points

/-! # The code points of objects and types

The scripts, the objects and the types that a walk puts together have a property of code points
throughout, if the property is lenient and the scripts of the schema have it
(`Runtime.all_walk`, `Declarations.all_walk`). Only the accessors hold surrogates as they are: those
of the names in their paths (`all_accessor`, `Runtime.all_tableEntry`). -/

namespace Phrasebook

open Text (All)

/-! ### Accessors -/

/-- The surrogates in the names of a path have a property. -/
def KeyPath.SurrogatesHave (P : CodePoint → Prop) (p : KeyPath) : Prop :=
  ∀ s ∈ p.segments, ∀ c ∈ s.toText, c.isSurrogate = true → P c

/-- The scripts of all locales of a key have a property of code points throughout. -/
structure Entry.AllScripts (P : CodePoint → Prop) (e : Entry) : Prop where
  expressions : ∀ p ∈ e.expressions, All P p.2
  fragments : ∀ p ∈ e.fragments, All P p.2

section Lenient
variable {P : CodePoint → Prop} (hP : Lenient P)
include hP

theorem all_subscript (s : Segment) :
    All P s.subscript ↔ ∀ c ∈ s.toText, c.isSurrogate = true → P c := by
  have hopen : All P "[" := hP.regular (by decide)
  have hclose : All P "]" := hP.regular (by decide)
  cases s with
  | name t =>
    rw [Segment.subscript, all_append, all_append, hP.literal]
    simp only [hopen, hclose, true_and, and_true]
    rfl
  | index n =>
    have hall : All P (Segment.index n).subscript :=
      all_append.mpr ⟨all_append.mpr ⟨hopen, hP.ofInt n⟩, hclose⟩
    exact ⟨fun _ c hc _ => hP.ofInt n c hc, fun _ => hall⟩

/-- **An accessor holds the surrogates of its path**, and nothing else that the property is not known
of. -/
theorem all_accessor (p : KeyPath) : All P p.accessor ↔ p.SurrogatesHave P := by
  unfold KeyPath.accessor KeyPath.SurrogatesHave
  rw [all_flatMap]
  exact forall₂_congr fun s _ => all_subscript hP s

namespace Runtime

theorem all_tableEntry (e : Entry) :
    All P (tableEntry e).render ↔ e.path.SurrogatesHave P := by
  have hopen : All P "[" := hP.regular (by decide)
  have harrow : All P ", (t) => t" := hP.regular (by decide)
  have hclose : All P "]" := hP.regular (by decide)
  unfold tableEntry
  rw [← all_accessor hP]
  refine all_concat.trans ?_
  simp only [List.forall_mem_cons, Fragment.render_plain, hopen, harrow, hclose, hP.quoted,
    List.not_mem_nil, false_implies, implies_true, true_and, and_true]

/-! ### Objects of the data module -/

theorem all_snippetName (number : Nat) : All P (snippetName number) :=
  all_append.mpr ⟨hP.regular (by decide), hP.ofNat number⟩

theorem all_declarations (next : Nat) {e : Entry} (h : e.AllScripts P) :
    ∀ f ∈ declarations next e, All P f.render := by
  intro f hf
  obtain ⟨⟨fragment, number⟩, hmem, rfl⟩ := List.mem_map.mp hf
  have hconst : All P "const " := hP.regular (by decide)
  have hequals : All P " = " := hP.regular (by decide)
  have hend : All P ";" := hP.regular (by decide)
  refine all_concat.mpr ?_
  simp only [List.forall_mem_cons]
  exact ⟨hconst, all_snippetName hP number, hequals, h.fragments _ (mem_of_mem_zipIdx hmem), hend,
    List.forall_mem_nil _⟩

theorem all_localized (showing : Showing) (next : Nat) {e : Entry} (h : e.AllScripts P) :
    ∀ p ∈ localized showing next e, AllProperty P p := by
  intro p hp
  cases showing with
  | translations =>
    obtain ⟨expression, hmem, rfl⟩ := List.mem_map.mp hp
    exact hP.property_text _ (h.expressions _ hmem)
  | snippets =>
    obtain ⟨⟨fragment, number⟩, -, rfl⟩ := List.mem_map.mp hp
    exact hP.property_text _ (all_snippetName hP number)

theorem all_leafScript (showing : Showing) (next : Nat) {e : Entry} (h : e.AllScripts P) :
    All P (leafScript showing next e).render := by
  refine hP.call (by decide) ?_
  rw [List.forall_mem_cons, List.forall_mem_singleton]
  exact ⟨hP.quoted e.key, hP.object (all_localized hP showing next h)⟩

/-- The script of a walk has a property of code points throughout, its table apart. -/
structure Walk.AllBut (P : CodePoint → Prop) (w : Walk) : Prop where
  nested : ∀ p ∈ w.nested, AllProperty P p
  reactive : ∀ p ∈ w.reactive, AllProperty P p
  declarations : ∀ f ∈ w.declarations, All P f.render

theorem Walk.AllBut.object {w : Walk} (h : w.AllBut P) : All P w.object.render := by
  have hnested := hP.object h.nested
  unfold Walk.object
  split
  · exact hP.call (by decide) (List.forall_mem_singleton.mpr hnested)
  · refine hP.call (by decide) (List.forall_mem_singleton.mpr (hP.call (by decide) ?_))
    rw [List.forall_mem_cons, List.forall_mem_singleton]
    exact ⟨hnested, hP.object h.reactive⟩

section Walk
variable {c : Catalogue} (hc : ∀ entry ∈ c.entries, entry.2.AllScripts P) (showing : Showing)
include hc

/-- **A walk over any children** puts together script from that of the schema. -/
theorem all_walkChildren : ∀ (children : List (Segment × Outline)) (next : Nat),
    (walkChildren c showing next children).AllBut P
  | [], next => by
    rw [walkChildren]
    exact ⟨List.forall_mem_nil _, List.forall_mem_nil _, List.forall_mem_nil _⟩
  | (segment, .leaf path) :: rest, next => by
    rw [walkChildren]
    cases he : c.entry? path with
    | none => exact all_walkChildren rest next
    | some e =>
      have hentry : e.AllScripts P := hc _ (OrderedMap.mem_of_get? he)
      have hdeclared : ∀ f ∈ (if showing = .snippets then declarations next e else []),
          All P f.render := by
        split_ifs
        · exact all_declarations hP next hentry
        · exact List.forall_mem_nil _
      have ih := all_walkChildren rest
        (next + (if showing = .snippets then declarations next e else []).length)
      have hleaf : AllProperty P (.text segment.toText, .code (leafScript showing next e)) :=
        hP.property_text _ (all_leafScript hP showing next hentry)
      exact ⟨ih.nested, List.forall_mem_cons.mpr ⟨hleaf, ih.reactive⟩,
        List.forall_mem_append.mpr ⟨hdeclared, ih.declarations⟩⟩
  | (segment, .interior path children) :: rest, next => by
    rw [walkChildren]
    have hinner := all_walkChildren children next
    have ih := all_walkChildren rest
      (next + (walkChildren c showing next children).declarations.length)
    have hobject : AllProperty P
        (.text segment.toText, .code (walkChildren c showing next children).object) :=
      hP.property_text _ (hinner.object hP)
    exact ⟨List.forall_mem_cons.mpr ⟨hobject, ih.nested⟩, ih.reactive,
      List.forall_mem_append.mpr ⟨hinner.declarations, ih.declarations⟩⟩

theorem all_walk : (walk c showing).AllBut P := all_walkChildren hP hc showing _ 0

end Walk

end Runtime

/-! ### Types of the declaration module -/

namespace Declarations

theorem all_propertyName (name : Text) : All P (propertyName name) := by
  unfold propertyName
  split_ifs with hbare
  · unfold isBare at hbare
    simp only [Bool.or_eq_true, Bool.and_eq_true, decide_eq_true_eq] at hbare
    rcases hbare with hname | ⟨hlast, hname⟩
    · exact hP.name hname
    · -- A name with a line feed at its end.
      obtain ⟨identifier, rfl⟩ := List.getLast?_eq_some_iff.mp hlast
      rw [List.dropLast_concat] at hname
      exact all_append.mpr ⟨hP.name hname, hP.regular (by decide)⟩
  · exact hP.quoted name

theorem all_parameterType (showing : Showing) (isFormatter : Bool) :
    All P (parameterType showing isFormatter) := by
  cases showing <;> cases isFormatter <;> exact hP.regular (by decide)

theorem all_parameters (showing : Showing) (s : Signature) :
    All P (parameters showing s).render := by
  have hopen : All P [CodePoint.openBrace, CodePoint.space] := hP.regular (by decide)
  have hseparator : All P ", " := hP.regular (by decide)
  have hcolon : All P ": " := hP.regular (by decide)
  have hclose : All P [CodePoint.space, CodePoint.closeBrace] := hP.regular (by decide)
  refine all_concat.mpr ?_
  simp only [List.forall_mem_cons]
  refine ⟨hopen, (all_separated hseparator).mpr fun f hf => ?_, hclose, List.forall_mem_nil _⟩
  obtain ⟨p, -, rfl⟩ := List.mem_map.mp hf
  refine all_concat.mpr ?_
  simp only [List.forall_mem_cons]
  exact ⟨all_propertyName hP p.name, hcolon, all_parameterType hP showing p.isFormatter,
    List.forall_mem_nil _⟩

/-- The parameters of a key between two texts of the generator's own. -/
theorem all_aroundParameters (showing : Showing) (s : Signature) {before after : Text}
    (hbefore : before.all CodePoint.isRegular = true)
    (hafter : after.all CodePoint.isRegular = true) :
    All P (Code.concat [Fragment.plain before, parameters showing s,
      Fragment.plain after]).render := by
  refine all_concat.mpr ?_
  simp only [List.forall_mem_cons]
  exact ⟨hP.regular hbefore, all_parameters hP showing s, hP.regular hafter, List.forall_mem_nil _⟩

theorem all_leafType (showing : Showing) (s : Signature) :
    All P (leafType showing s).render := by
  unfold leafType
  split
  · exact hP.regular (by decide)
  · exact all_aroundParameters hP _ s (by decide) (by decide)
  · exact hP.regular (by decide)
  · exact all_aroundParameters hP _ s (by decide) (by decide)

theorem all_tableEntry (showing : Showing) (e : Entry) :
    All P (tableEntry showing e).render := by
  have hempty : All P ": []" := hP.regular (by decide)
  have hopen : All P ": [params: " := hP.regular (by decide)
  have hclose : All P "]" := hP.regular (by decide)
  unfold tableEntry
  split_ifs
  · refine all_concat.mpr ?_
    simp only [List.forall_mem_cons]
    exact ⟨hP.quoted e.key, hempty, List.forall_mem_nil _⟩
  · refine all_concat.mpr ?_
    simp only [List.forall_mem_cons]
    exact ⟨hP.quoted e.key, hopen, all_parameters hP showing e.signature, hclose,
      List.forall_mem_nil _⟩

theorem all_readonly (segment : Segment) {type : Fragment} (h : All P type.render) :
    AllProperty P (readonly segment, type) :=
  ⟨all_append.mpr ⟨hP.regular (by decide), hP.quoted _⟩, h⟩

/-- The types of a walk have a property of code points throughout. -/
structure Walk.All (P : CodePoint → Prop) (w : Walk) : Prop where
  properties : ∀ p ∈ w.properties, AllProperty P p
  table : ∀ f ∈ w.table, Text.All P f.render

theorem all_walkChildren (c : Catalogue) (showing : Showing) :
    ∀ children : List (Segment × Outline), (walkChildren c showing children).All P
  | [] => by
    rw [walkChildren]
    exact ⟨List.forall_mem_nil _, List.forall_mem_nil _⟩
  | (segment, .leaf path) :: rest => by
    have ih := all_walkChildren c showing rest
    rw [walkChildren]
    cases c.entry? path with
    | none => exact ih
    | some e =>
      have hleaf := all_readonly hP segment (all_leafType hP showing e.signature)
      exact ⟨List.forall_mem_cons.mpr ⟨hleaf, ih.properties⟩,
        List.forall_mem_cons.mpr ⟨all_tableEntry hP showing e, ih.table⟩⟩
  | (segment, .interior path children) :: rest => by
    have hinner := all_walkChildren c showing children
    have ih := all_walkChildren c showing rest
    have hobject : AllProperty P
        (readonly segment, .code (walkChildren c showing children).type) :=
      all_readonly hP segment (hP.object hinner.properties)
    rw [walkChildren]
    exact ⟨List.forall_mem_cons.mpr ⟨hobject, ih.properties⟩,
      List.forall_mem_append.mpr ⟨hinner.table, ih.table⟩⟩

theorem all_walk (c : Catalogue) (showing : Showing) : (walk c showing).All P :=
  all_walkChildren hP c showing _

end Declarations

end Lenient

end Phrasebook
