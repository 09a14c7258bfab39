import Mathlib.Data.List.Forall2
import Phrasebook.Proofs.Script.Scan
import Phrasebook.Proofs.Script.Unbroken

/-! # Reading object literals

A reader of the object literals with one property per line that generated script is made of, at any
indentation. It is given a reader of the values and stops after the closing brace (`object?_append`);
the values are read where a comma or a line feed follows (`ReadsValue`). -/

namespace Phrasebook

/-! ### Indentation -/

namespace Code

theorem padAfterBreaks_nil (t : Text) : padAfterBreaks [] t = t := by
  have hid : ∀ c ∈ t, (if c = CodePoint.lf then [c] else [c]) = [c] := fun c _ => ite_self _
  unfold padAfterBreaks
  rw [List.flatMap_congr hid, List.flatMap_singleton']

theorem length_le_padAfterBreaks (pad t : Text) : t.length ≤ (padAfterBreaks pad t).length := by
  induction t with
  | nil => exact Nat.zero_le _
  | cons c t ih =>
    have hcons : padAfterBreaks pad (c :: t) =
        (if c = CodePoint.lf then c :: pad else [c]) ++ padAfterBreaks pad t := List.flatMap_cons
    rw [hcons]
    split_ifs
    · simp only [List.length_append, List.length_cons]
      omega
    · simp only [List.length_append, List.length_cons, List.length_nil]
      omega

theorem padAfterBreaks_padAfterBreaks {inner : Text} (h : Unbroken inner) (pad t : Text) :
    padAfterBreaks pad (padAfterBreaks inner t) = padAfterBreaks (pad ++ inner) t := by
  induction t with
  | nil => rfl
  | cons c t ih =>
    have hcons : ∀ pad, padAfterBreaks pad (c :: t) =
        (if c = CodePoint.lf then c :: pad else [c]) ++ padAfterBreaks pad t :=
      fun pad => List.flatMap_cons
    rw [hcons, padAfterBreaks_append, ih, hcons]
    congr 1
    by_cases hc : c = CodePoint.lf
    · have hinner := h.padAfterBreaks pad
      subst hc
      rw [if_pos rfl, if_pos rfl]
      show CodePoint.lf :: pad ++ padAfterBreaks pad inner = _
      rw [hinner]
      rfl
    · rw [if_neg hc, if_neg hc]
      exact Unbroken.padAfterBreaks (fun hmem => hc (List.mem_singleton.mp hmem).symm) pad

/-- A property as it stands in an indented object literal. -/
theorem padAfterBreaks_property {name : Text} (h : Unbroken name) (pad : Text)
    {p : PropertyName × Fragment} (hname : (propertyName [] p.1).render = name) :
    padAfterBreaks pad (property [] p.1 p.2).render =
      name ++ CodePoint.ofChar ':' :: CodePoint.space ::
        padAfterBreaks (pad ++ indentUnit) p.2.render := by
  have hunit : Unbroken indentUnit := by decide
  have hcolon : Unbroken ": " := by decide
  have hindent : (indent p.2).render = padAfterBreaks indentUnit p.2.render :=
    render_indent p.2 1
  have hrender : (property [] p.1 p.2).render =
      name ++ (": " ++ padAfterBreaks indentUnit p.2.render) := by
    unfold property
    rw [render_concat]
    simp only [List.map_cons, List.map_nil, List.flatten_cons, List.flatten_nil, List.append_nil,
      hname, Fragment.render_plain, Fragment.render_code, hindent]
  rw [hrender, h.padAfterBreaks_append, hcolon.padAfterBreaks_append,
    padAfterBreaks_padAfterBreaks hunit]
  rfl

end Code

namespace Script

/-! ### Blanks -/

/-- Whether a code point only lays out script. -/
def isBlank (c : CodePoint) : Bool := c = CodePoint.space || c = CodePoint.lf

/-- What follows the blanks at the beginning. -/
def skipBlanks (t : Text) : Text := t.dropWhile isBlank

theorem skipBlanks_append {blanks : Text} (h : ∀ c ∈ blanks, isBlank c = true) {c : CodePoint}
    (hc : isBlank c = false) (rest : Text) : skipBlanks (blanks ++ c :: rest) = c :: rest := by
  unfold skipBlanks
  rw [List.dropWhile_append_of_pos h, List.dropWhile_cons_of_neg (Bool.eq_false_iff.mp hc)]

theorem isBlank_of_mem_lf_cons {pad : Text} (h : ∀ c ∈ pad, c = CodePoint.space) :
    ∀ c ∈ CodePoint.lf :: pad, isBlank c = true := by
  refine List.forall_mem_cons.mpr ⟨by decide, fun c hc => ?_⟩
  rw [h c hc]
  decide

/-! ### The reader -/

section Reader
variable {α : Type} (value? : Text → Option (α × Text))

/-- The properties of an object literal up to its closing brace, and what is left. What follows a
comma is shorter than what begins before it, which the reader checks. -/
def properties? (t : Text) : Option (List (Text × α) × Text) :=
  (string? t).bind fun (name, afterName) =>
    (Text.dropBeginning? ": " afterName).bind fun beforeValue =>
      (value? beforeValue).bind fun (value, afterValue) =>
        match Text.dropBeginning? "," afterValue with
        | none =>
          (Text.dropBeginning? [CodePoint.closeBrace] (skipBlanks afterValue)).map fun left =>
            ([(name, value)], left)
        | some rest =>
          if _h : (skipBlanks rest).length < t.length then
            (properties? (skipBlanks rest)).map fun (others, left) => ((name, value) :: others, left)
          else none
termination_by t.length

/-- **The properties of the object literal** that a text begins with, and what is left. -/
def object? (t : Text) : Option (List (Text × α) × Text) :=
  (Text.dropBeginning? [CodePoint.openBrace] t).bind fun inner =>
    match Text.dropBeginning? [CodePoint.closeBrace] inner with
    | some left => some ([], left)
    | none => properties? value? (skipBlanks inner)

/-- **A text is read as a value** at any indentation, where a comma or a line feed follows. -/
def ReadsValue (t : Text) (a : α) : Prop :=
  ∀ pad : Text, (∀ c ∈ pad, c = CodePoint.space) → ∀ (c : CodePoint) (rest : Text),
    c = CodePoint.ofChar ',' ∨ c = CodePoint.lf →
      value? (Code.padAfterBreaks pad t ++ c :: rest) = some (a, c :: rest)

/-- A property is read as a name and a value. -/
def ReadsProperty (p : Code.PropertyName × Fragment) (x : Text × α) : Prop :=
  p.1 = .text x.1 ∧ ReadsValue value? p.2.render x.2

end Reader

/-! ### What is read -/

section Reads
variable {α : Type} {value? : Text → Option (α × Text)} {pad : Text}
  (hpad : ∀ c ∈ pad, c = CodePoint.space)

theorem padAfterBreaks_property {p : Code.PropertyName × Fragment} {name : Text}
    (h : p.1 = .text name) (pad : Text) :
    Code.padAfterBreaks pad (Code.property [] p.1 p.2).render =
      name.quoted ++ CodePoint.ofChar ':' :: CodePoint.space ::
        Code.padAfterBreaks (pad ++ Code.indentUnit) p.2.render := by
  refine Code.padAfterBreaks_property (unbroken_quoted name) pad ?_
  rw [h]
  rfl

theorem render_object (p : Code.PropertyName × Fragment)
    (rest : List (Code.PropertyName × Fragment)) : (Code.object (p :: rest)).render =
      CodePoint.openBrace :: Code.firstBreak ++ Text.join Code.entryBreak
        ((p :: rest).map fun p => (Code.property [] p.1 p.2).render) ++
          [CodePoint.lf, CodePoint.closeBrace] := by
  unfold Code.object
  rw [Code.render_concat]
  simp only [List.map_cons, List.map_nil, List.flatten_cons, List.flatten_nil, List.append_nil,
    Fragment.render_plain, Fragment.render_code, Code.render_join, List.map_map, List.append_assoc]
  rfl

theorem exists_render_object (properties : List (Code.PropertyName × Fragment)) :
    ∃ t, (Code.object properties).render = CodePoint.openBrace :: t := by
  cases properties with
  | nil => exact ⟨[CodePoint.closeBrace], rfl⟩
  | cons p rest =>
    rw [render_object]
    exact ⟨_, rfl⟩

theorem length_lt_object {properties : List (Code.PropertyName × Fragment)}
    {p : Code.PropertyName × Fragment} (h : p ∈ properties) :
    p.2.render.length < (Code.object properties).render.length := by
  have hindent : p.2.render.length ≤ (Code.indent p.2).render.length := by
    rw [Code.render_indent]
    exact Code.length_le_padAfterBreaks _ _
  have hproperty : (Code.indent p.2).render <:+: (Code.property [] p.1 p.2).render :=
    Code.infix_concat (f := .code (Code.indent p.2)) (List.mem_of_getElem? (i := 2) rfl)
  have hjoin : (Code.property [] p.1 p.2).render <:+: Text.join Code.entryBreak
      (properties.map fun p => (Code.property [] p.1 p.2).render) :=
    Code.infix_join (List.mem_map_of_mem (f := fun p => (Code.property [] p.1 p.2).render) h) _
  have hlength := (hproperty.trans hjoin).length_le
  obtain ⟨first, rest, rfl⟩ := List.exists_cons_of_ne_nil (List.ne_nil_of_mem h)
  rw [render_object]
  simp only [List.length_append, List.length_cons]
  omega

theorem padAfterBreaks_entryBreak (pad : Text) : Code.padAfterBreaks pad Code.entryBreak =
    CodePoint.ofChar ',' :: CodePoint.lf :: (pad ++ Code.indentUnit) := rfl

/-- The properties of an object literal as they stand in indented script. -/
def propertiesText (pad : Text) (properties : List (Code.PropertyName × Fragment)) : Text :=
  Code.padAfterBreaks pad (Text.join Code.entryBreak
    (properties.map fun p => (Code.property [] p.1 p.2).render))

theorem propertiesText_singleton (pad : Text) (p : Code.PropertyName × Fragment) :
    propertiesText pad [p] = Code.padAfterBreaks pad (Code.property [] p.1 p.2).render :=
  congrArg (Code.padAfterBreaks pad) List.intercalate_singleton

theorem propertiesText_cons_cons (pad : Text) (p q : Code.PropertyName × Fragment)
    (rest : List (Code.PropertyName × Fragment)) : propertiesText pad (p :: q :: rest) =
      Code.padAfterBreaks pad (Code.property [] p.1 p.2).render ++ CodePoint.ofChar ',' ::
        (CodePoint.lf :: (pad ++ Code.indentUnit) ++ propertiesText pad (q :: rest)) := by
  have hjoin : Text.join Code.entryBreak
      ((p :: q :: rest).map fun p => (Code.property [] p.1 p.2).render) =
        (Code.property [] p.1 p.2).render ++ Code.entryBreak ++ Text.join Code.entryBreak
          ((q :: rest).map fun p => (Code.property [] p.1 p.2).render) :=
    List.intercalate_cons_cons
  unfold propertiesText
  rw [hjoin, Code.padAfterBreaks_append, Code.padAfterBreaks_append, padAfterBreaks_entryBreak]
  simp only [List.append_assoc, List.cons_append]

theorem exists_propertiesText {p : Code.PropertyName × Fragment} {name : Text}
    (h : p.1 = .text name) (pad : Text) (rest : List (Code.PropertyName × Fragment)) :
    ∃ t, propertiesText pad (p :: rest) = CodePoint.doubleQuote :: t := by
  cases rest with
  | nil =>
    rw [propertiesText_singleton, padAfterBreaks_property h, Text.quoted_eq]
    exact ⟨_, rfl⟩
  | cons q rest =>
    rw [propertiesText_cons_cons, padAfterBreaks_property h, Text.quoted_eq]
    exact ⟨_, rfl⟩

include hpad in
theorem eq_space_of_mem_append : ∀ c ∈ pad ++ Code.indentUnit, c = CodePoint.space := by
  have hunit : ∀ c ∈ Code.indentUnit, c = CodePoint.space := by decide
  exact List.forall_mem_append.mpr ⟨hpad, hunit⟩

include hpad in
theorem skipBlanks_propertiesText {p : Code.PropertyName × Fragment} {name : Text}
    (h : p.1 = .text name) (rest : List (Code.PropertyName × Fragment)) (t : Text) :
    skipBlanks (CodePoint.lf :: (pad ++ Code.indentUnit ++ (propertiesText pad (p :: rest) ++ t))) =
      propertiesText pad (p :: rest) ++ t := by
  obtain ⟨u, hu⟩ := exists_propertiesText h pad rest
  rw [hu, List.cons_append, ← List.cons_append]
  exact skipBlanks_append (isBlank_of_mem_lf_cons (eq_space_of_mem_append hpad)) (by decide) _

/-- What follows the properties of an indented object literal. -/
def closing (pad rest : Text) : Text := CodePoint.lf :: (pad ++ CodePoint.closeBrace :: rest)

theorem dropBeginning?_colon (t : Text) :
    Text.dropBeginning? ": " (CodePoint.ofChar ':' :: CodePoint.space :: t) = some t :=
  Text.dropBeginning?_append ": " t

theorem dropBeginning?_closeBrace (t : Text) :
    Text.dropBeginning? [CodePoint.closeBrace] (CodePoint.closeBrace :: t) = some t :=
  Text.dropBeginning?_append [CodePoint.closeBrace] t

include hpad in
theorem properties?_singleton {p : Code.PropertyName × Fragment} {x : Text × α}
    (h : ReadsProperty value? p x) (rest : Text) :
    properties? value? (propertiesText pad [p] ++ closing pad rest) = some ([x], rest) := by
  obtain ⟨hname, hvalue⟩ := h
  obtain ⟨name, value⟩ := x
  have hcolon : CodePoint.ofChar ':' ≠ CodePoint.space := by decide
  have hread := hvalue _ (eq_space_of_mem_append hpad) CodePoint.lf
    (pad ++ CodePoint.closeBrace :: rest) (Or.inr rfl)
  have hcomma : Text.dropBeginning? "," (CodePoint.lf :: (pad ++ CodePoint.closeBrace :: rest)) =
      none := Text.dropBeginning?_cons_of_ne (by decide) [] _
  have hblanks := skipBlanks_append (isBlank_of_mem_lf_cons hpad)
    (c := CodePoint.closeBrace) (by decide) rest
  rw [propertiesText_singleton, padAfterBreaks_property hname, closing, List.append_assoc,
    List.cons_append, List.cons_append, properties?, string?_quoted name hcolon, Option.bind_some]
  simp only [dropBeginning?_colon, Option.bind_some, hread, hcomma]
  rw [← List.cons_append, hblanks, dropBeginning?_closeBrace, Option.map_some]

include hpad in
theorem properties?_cons_cons {p q : Code.PropertyName × Fragment} {x : Text × α} {name : Text}
    (h : ReadsProperty value? p x) (hq : q.1 = .text name)
    {properties : List (Code.PropertyName × Fragment)} {named : List (Text × α)} {rest : Text}
    (hothers : properties? value? (propertiesText pad (q :: properties) ++ closing pad rest) =
      some (named, rest)) :
    properties? value? (propertiesText pad (p :: q :: properties) ++ closing pad rest) =
      some (x :: named, rest) := by
  obtain ⟨hname, hvalue⟩ := h
  obtain ⟨name, value⟩ := x
  let next := propertiesText pad (q :: properties) ++ closing pad rest
  have hnext : properties? value? next = some (named, rest) := hothers
  have hcolon : CodePoint.ofChar ':' ≠ CodePoint.space := by decide
  have hread := hvalue _ (eq_space_of_mem_append hpad) (CodePoint.ofChar ',')
    (CodePoint.lf :: (pad ++ Code.indentUnit ++ next)) (Or.inl rfl)
  have hcomma : ∀ t : Text, Text.dropBeginning? "," (CodePoint.ofChar ',' :: t) = some t :=
    fun t => Text.dropBeginning?_append "," t
  have hblanks : skipBlanks (CodePoint.lf :: (pad ++ Code.indentUnit ++ next)) = next :=
    skipBlanks_propertiesText hpad hq properties _
  have htext : propertiesText pad (p :: q :: properties) ++ closing pad rest =
      name.quoted ++ CodePoint.ofChar ':' :: CodePoint.space ::
        (Code.padAfterBreaks (pad ++ Code.indentUnit) p.2.render ++ CodePoint.ofChar ',' ::
          (CodePoint.lf :: (pad ++ Code.indentUnit ++ next))) := by
    rw [propertiesText_cons_cons, padAfterBreaks_property hname]
    simp only [List.append_assoc, List.cons_append, next]
  -- The reader goes on only where less is left.
  have hlength : next.length < (name.quoted ++ CodePoint.ofChar ':' :: CodePoint.space ::
      (Code.padAfterBreaks (pad ++ Code.indentUnit) p.2.render ++ CodePoint.ofChar ',' ::
        (CodePoint.lf :: (pad ++ Code.indentUnit ++ next)))).length := by
    simp only [List.length_append, List.length_cons]
    omega
  rw [htext, properties?, string?_quoted name hcolon, Option.bind_some]
  simp only [dropBeginning?_colon, Option.bind_some, hread, hcomma, hblanks, dif_pos hlength, hnext,
    Option.map_some]

include hpad in
/-- **Properties are read** up to the closing brace. -/
theorem properties?_append {properties : List (Code.PropertyName × Fragment)}
    {named : List (Text × α)} (h : List.Forall₂ (ReadsProperty value?) properties named)
    (hne : properties ≠ []) (rest : Text) :
    properties? value? (propertiesText pad properties ++ closing pad rest) = some (named, rest) := by
  induction h with
  | nil => exact absurd rfl hne
  | @cons p x properties named hp hrest ih =>
    cases hrest with
    | nil => exact properties?_singleton hpad hp rest
    | @cons q y properties named hq hothers =>
      exact properties?_cons_cons hpad hp hq.1 (ih (List.cons_ne_nil _ _))

include hpad in
/-- **An object literal is read**, whatever follows it. -/
theorem object?_append {properties : List (Code.PropertyName × Fragment)}
    {named : List (Text × α)} (h : List.Forall₂ (ReadsProperty value?) properties named)
    (rest : Text) : object? value? (Code.padAfterBreaks pad (Code.object properties).render ++ rest) =
      some (named, rest) := by
  have hopen : ∀ t : Text, Text.dropBeginning? [CodePoint.openBrace] (CodePoint.openBrace :: t) =
      some t := fun t => Text.dropBeginning?_append [CodePoint.openBrace] t
  unfold object?
  cases h with
  | nil =>
    have hempty : Code.padAfterBreaks pad (Code.object []).render ++ rest =
        CodePoint.openBrace :: CodePoint.closeBrace :: rest := rfl
    rw [hempty, hopen, Option.bind_some, dropBeginning?_closeBrace]
  | @cons p x properties named hp hrest =>
    have hproperties := properties?_append hpad (.cons hp hrest) (List.cons_ne_nil _ _) rest
    have hclose : ∀ t : Text, Text.dropBeginning? [CodePoint.closeBrace] (CodePoint.lf :: t) =
        none := fun t => Text.dropBeginning?_cons_of_ne (by decide) [] t
    have htext : Code.padAfterBreaks pad (Code.object (p :: properties)).render ++ rest =
        CodePoint.openBrace :: CodePoint.lf :: (pad ++ Code.indentUnit ++
          (propertiesText pad (p :: properties) ++ closing pad rest)) := by
      have hfirst : Code.padAfterBreaks pad (CodePoint.openBrace :: Code.firstBreak) =
          CodePoint.openBrace :: CodePoint.lf :: (pad ++ Code.indentUnit) := rfl
      have hlast : Code.padAfterBreaks pad [CodePoint.lf, CodePoint.closeBrace] =
          CodePoint.lf :: (pad ++ [CodePoint.closeBrace]) := rfl
      rw [render_object, Code.padAfterBreaks_append, Code.padAfterBreaks_append, hfirst, hlast]
      simp only [List.append_assoc, List.cons_append, List.nil_append, propertiesText, closing]
    rw [htext, hopen, Option.bind_some]
    simp only [hclose, skipBlanks_propertiesText hpad hp.1, hproperties]

end Reads

end Script

end Phrasebook
