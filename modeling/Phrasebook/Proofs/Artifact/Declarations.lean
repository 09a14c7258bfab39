import Phrasebook.Artifact.Declarations
import Phrasebook.Proofs.Script.Balanced

/-! # The types of the declaration module are balanced

A walk over any outline gives balanced types (`balanced_walk`). The names of parameters are quoted
unless they are identifiers; nothing else of a schema stands outside of quotes. -/

namespace Phrasebook.Declarations

open Lexer

/-! ### Leaves -/

theorem balanced_propertyName (name : Text) : Balanced (propertyName name) := by
  unfold propertyName
  split_ifs with hbare
  · unfold isBare at hbare
    simp only [Bool.or_eq_true, Bool.and_eq_true, decide_eq_true_eq] at hbare
    rcases hbare with hname | ⟨hlast, hname⟩
    · exact balanced_name hname
    · -- A name with a line feed at its end.
      have hlf : Balanced [CodePoint.lf] := by decide
      obtain ⟨identifier, rfl⟩ := List.getLast?_eq_some_iff.mp hlast
      rw [List.dropLast_concat] at hname
      exact (balanced_name hname).append hlf
  · exact balanced_quoted name

theorem balanced_parameterType (showing : Showing) (isFormatter : Bool) :
    Balanced (parameterType showing isFormatter) := by
  cases showing <;> cases isFormatter <;> decide

theorem balanced_parameters (showing : Showing) (s : Signature) :
    Balanced (parameters showing s).render := by
  have henclose : Encloses [CodePoint.openBrace, CodePoint.space]
      [CodePoint.space, CodePoint.closeBrace] := ⟨_, rfl, rfl⟩
  have hseparator : Balanced ", " := by decide
  have hcolon : Balanced ": " := by decide
  refine balanced_bracketedList henclose hseparator fun f hf => ?_
  obtain ⟨p, -, rfl⟩ := List.mem_map.mp hf
  refine balanced_concat ?_
  simp only [List.forall_mem_cons]
  exact ⟨balanced_propertyName p.name, hcolon, balanced_parameterType showing p.isFormatter,
    List.forall_mem_nil _⟩

theorem balanced_leafType (showing : Showing) (s : Signature) :
    Balanced (leafType showing s).render := by
  have hfunction : Encloses "(params: " ") => string" := ⟨_, rfl, rfl⟩
  have hsnippet : Encloses "Snippet<[params: " "]>" := ⟨_, rfl, rfl⟩
  unfold leafType
  split
  · decide
  · exact balanced_bracketed hfunction (balanced_parameters _ s)
  · decide
  · exact balanced_bracketed hsnippet (balanced_parameters _ s)

theorem balanced_tableEntry (showing : Showing) (e : Entry) :
    Balanced (tableEntry showing e).render := by
  unfold tableEntry
  split_ifs
  · have hempty : Balanced ": []" := by decide
    refine balanced_concat ?_
    rw [List.forall_mem_cons, List.forall_mem_singleton]
    exact ⟨balanced_quoted e.key, hempty⟩
  · have henclose : Encloses ": [params: " "]" := ⟨_, rfl, rfl⟩
    have hparameters := henclose.balanced (balanced_parameters showing e.signature)
    have hentry := (balanced_quoted e.key).append hparameters
    show Balanced (Code.concat _).render
    rw [Code.render_concat]
    simpa using hentry

theorem balanced_readonly (segment : Segment) {type : Fragment} (h : Balanced type.render) :
    BalancedProperty (readonly segment, type) := by
  have hreadonly : Balanced "readonly " := by decide
  exact ⟨hreadonly.append (balanced_quoted _), h⟩

/-! ### Walks -/

/-- All script that a walk gives is balanced. -/
structure Walk.Balanced (w : Walk) : Prop where
  properties : ∀ p ∈ w.properties, BalancedProperty p
  table : ∀ f ∈ w.table, Lexer.Balanced f.render

theorem Walk.Balanced.type {w : Walk} (h : w.Balanced) : Lexer.Balanced w.type.render :=
  balanced_object h.properties

/-- **A walk over any children gives balanced types.** -/
theorem balanced_walkChildren (c : Catalogue) (showing : Showing) :
    ∀ children : List (Segment × Outline), (walkChildren c showing children).Balanced
  | [] => by
    rw [walkChildren]
    exact ⟨List.forall_mem_nil _, List.forall_mem_nil _⟩
  | (segment, .leaf path) :: rest => by
    have ih := balanced_walkChildren c showing rest
    rw [walkChildren]
    cases c.entry? path with
    | none => exact ih
    | some e =>
      have hleaf := balanced_readonly segment (balanced_leafType showing e.signature)
      exact ⟨List.forall_mem_cons.mpr ⟨hleaf, ih.properties⟩,
        List.forall_mem_cons.mpr ⟨balanced_tableEntry showing e, ih.table⟩⟩
  | (segment, .interior path children) :: rest => by
    have hinner := balanced_walkChildren c showing children
    have ih := balanced_walkChildren c showing rest
    have hobject : BalancedProperty
        (readonly segment, .code (walkChildren c showing children).type) :=
      balanced_readonly segment hinner.type
    rw [walkChildren]
    exact ⟨List.forall_mem_cons.mpr ⟨hobject, ih.properties⟩,
      List.forall_mem_append.mpr ⟨hinner.table, ih.table⟩⟩

theorem balanced_walk (c : Catalogue) (showing : Showing) : (walk c showing).Balanced :=
  balanced_walkChildren c showing _

end Phrasebook.Declarations
