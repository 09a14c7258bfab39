import Phrasebook.Artifact.Runtime
import Phrasebook.Proofs.Schema.Balanced

/-! # The objects of the runtime module are balanced

A walk over any outline puts together balanced script, provided that the scripts of the schema are
balanced (`balanced_walk`): keys, names and locales are quoted, and the subscripts that lead to a
value are quoted names or numerals. -/

namespace Phrasebook

open Lexer

theorem Segment.balanced_subscript (s : Segment) : Balanced s.subscript := by
  have henclose : Encloses "[" "]" := ⟨_, rfl, rfl⟩
  cases s with
  | name t => exact henclose.balanced (balanced_literal t)
  | index n => exact henclose.balanced (balanced_ofInt n)

theorem KeyPath.balanced_accessor (p : KeyPath) : Balanced p.accessor := by
  unfold accessor
  rw [List.flatMap_def]
  refine balanced_flatten fun t ht => ?_
  obtain ⟨s, -, rfl⟩ := List.mem_map.mp ht
  exact s.balanced_subscript

namespace Runtime

/-! ### Leaves -/

theorem balanced_snippetName (number : Nat) : Balanced (snippetName number) := by
  have hbegins : Balanced "snippet_" := by decide
  exact hbegins.append (balanced_ofNat number)

theorem balanced_declaration (number : Nat) {script : Text} (h : Balanced script) :
    Balanced (declaration number script).render := by
  have hconst : Balanced "const " := by decide
  have hequals : Balanced " = " := by decide
  have hend : Balanced ";" := by decide
  refine balanced_concat ?_
  simp only [List.forall_mem_cons]
  exact ⟨hconst, balanced_snippetName number, hequals, h, hend, List.forall_mem_nil _⟩

theorem mem_of_mem_zipIdx {α : Type} {l : List α} {x : α} {n next : Nat}
    (h : (x, n) ∈ l.zipIdx next) : x ∈ l := by
  have hx : x ∈ (l.zipIdx next).map Prod.fst := List.mem_map.mpr ⟨_, h, rfl⟩
  rwa [List.zipIdx_map_fst] at hx

theorem balanced_declarations (next : Nat) {e : Entry} (h : e.Balanced) :
    ∀ f ∈ declarations next e, Balanced f.render := by
  intro f hf
  obtain ⟨⟨fragment, number⟩, hmem, rfl⟩ := List.mem_map.mp hf
  exact balanced_declaration number (h.fragments _ (mem_of_mem_zipIdx hmem))

theorem balanced_localized (showing : Showing) (next : Nat) {e : Entry} (h : e.Balanced) :
    ∀ p ∈ localized showing next e, BalancedProperty p := by
  intro p hp
  cases showing with
  | translations =>
    obtain ⟨expression, hmem, rfl⟩ := List.mem_map.mp hp
    exact balancedProperty_text _ (h.expressions _ hmem)
  | snippets =>
    obtain ⟨⟨fragment, number⟩, -, rfl⟩ := List.mem_map.mp hp
    exact balancedProperty_text _ (balanced_snippetName number)

theorem balanced_leafScript (showing : Showing) (next : Nat) {e : Entry} (h : e.Balanced) :
    Balanced (leafScript showing next e).render := by
  have hcallee : Balanced "reactive" := by decide
  have hobject := balanced_object (balanced_localized showing next h)
  refine balanced_call hcallee ?_
  rw [List.forall_mem_cons, List.forall_mem_singleton]
  exact ⟨balanced_quoted e.key, hobject⟩

theorem balanced_tableEntry (e : Entry) : Balanced (tableEntry e).render := by
  have henclose : Encloses "[" "]" := ⟨_, rfl, rfl⟩
  have harrow : Balanced ", (t) => t" := by decide
  refine balanced_enclosed henclose [Fragment.plain e.key.quoted, Fragment.plain ", (t) => t",
    Fragment.plain e.path.accessor] ?_
  simp only [List.forall_mem_cons]
  exact ⟨balanced_quoted e.key, harrow, e.path.balanced_accessor, List.forall_mem_nil _⟩

/-! ### Walks -/

/-- All script that a walk gives is balanced. -/
structure Walk.Balanced (w : Walk) : Prop where
  nested : ∀ p ∈ w.nested, BalancedProperty p
  reactive : ∀ p ∈ w.reactive, BalancedProperty p
  table : ∀ f ∈ w.table, Lexer.Balanced f.render
  declarations : ∀ f ∈ w.declarations, Lexer.Balanced f.render

theorem Walk.balanced_empty : Walk.Balanced {} :=
  ⟨List.forall_mem_nil _, List.forall_mem_nil _, List.forall_mem_nil _, List.forall_mem_nil _⟩

/-- The object of a balanced walk is balanced. -/
theorem Walk.Balanced.object {w : Walk} (h : w.Balanced) : Lexer.Balanced w.object.render := by
  have hfreeze : Lexer.Balanced "Object.freeze" := by decide
  have hdefine : Lexer.Balanced "Object.defineProperties" := by decide
  have hnested := balanced_object h.nested
  have hreactive := balanced_object h.reactive
  unfold Walk.object
  split
  · exact balanced_call hfreeze (List.forall_mem_singleton.mpr hnested)
  · refine balanced_call hfreeze (List.forall_mem_singleton.mpr (balanced_call hdefine ?_))
    rw [List.forall_mem_cons, List.forall_mem_singleton]
    exact ⟨hnested, hreactive⟩

section Walk
variable {c : Catalogue} (hc : c.Balanced) (showing : Showing)
include hc

/-- **A walk over any children gives balanced script.** -/
theorem balanced_walkChildren : ∀ (children : List (Segment × Outline)) (next : Nat),
    (walkChildren c showing next children).Balanced
  | [], next => by
    rw [walkChildren]
    exact Walk.balanced_empty
  | (segment, .leaf path) :: rest, next => by
    rw [walkChildren]
    cases he : c.entry? path with
    | none => exact balanced_walkChildren rest next
    | some e =>
      have hentry : e.Balanced := hc.entry? he
      have hdeclared : ∀ f ∈ (if showing = .snippets then declarations next e else []),
          Lexer.Balanced f.render := by
        by_cases hs : showing = .snippets
        · rw [if_pos hs]
          exact balanced_declarations next hentry
        · rw [if_neg hs]
          exact List.forall_mem_nil _
      have ih := balanced_walkChildren rest
        (next + (if showing = .snippets then declarations next e else []).length)
      have hleaf : BalancedProperty (.text segment.toText, .code (leafScript showing next e)) :=
        balancedProperty_text _ (balanced_leafScript showing next hentry)
      exact ⟨ih.nested, List.forall_mem_cons.mpr ⟨hleaf, ih.reactive⟩,
        List.forall_mem_cons.mpr ⟨balanced_tableEntry e, ih.table⟩,
        List.forall_mem_append.mpr ⟨hdeclared, ih.declarations⟩⟩
  | (segment, .interior path children) :: rest, next => by
    rw [walkChildren]
    have hinner := balanced_walkChildren children next
    have ih := balanced_walkChildren rest
      (next + (walkChildren c showing next children).declarations.length)
    have hobject : BalancedProperty
        (.text segment.toText, .code (walkChildren c showing next children).object) :=
      balancedProperty_text _ hinner.object
    exact ⟨List.forall_mem_cons.mpr ⟨hobject, ih.nested⟩, ih.reactive,
      List.forall_mem_append.mpr ⟨hinner.table, ih.table⟩,
      List.forall_mem_append.mpr ⟨hinner.declarations, ih.declarations⟩⟩

theorem balanced_walk : (walk c showing).Balanced :=
  balanced_walkChildren hc showing _ 0

end Walk

end Runtime

end Phrasebook
