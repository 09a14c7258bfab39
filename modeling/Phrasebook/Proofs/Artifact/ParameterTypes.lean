import Mathlib.Data.List.Nodup
import Mathlib.Data.List.TakeWhile
import Phrasebook.Artifact.Declarations
import Phrasebook.Proofs.Script.Render
import Phrasebook.Proofs.Script.Scan
import Phrasebook.Proofs.Template.Names

/-! # Parameter types read back

A reader of the object types that declare parameters: a property has an identifier or a string
literal as its name, and white space between tokens does not count (`ObjectType.read?`). What it reads
of the parameters of a signature is told for every signature (`read?_parameters`): each parameter with
its kind, under its own name, except that a name made of an identifier and a line feed loses the line
feed. So the signature is read back exactly if it has no such name, and two parameters share a name
exactly if they differ in such a line feed only (`read?_parameters_iff`). An escape in a literal
stands for the code point of its number. -/

namespace Phrasebook

/-! ### Names -/

namespace Declarations

/-- A name that is declared without quotes although it is no identifier. -/
def Blurred (name : Text) : Prop :=
  ∃ identifier, Template.isName identifier ∧ name = identifier ++ [CodePoint.lf]

theorem blurred_iff {name : Text} :
    Blurred name ↔ name.getLast? = some CodePoint.lf ∧ Template.isName name.dropLast := by
  constructor
  · rintro ⟨identifier, hname, rfl⟩
    rw [List.getLast?_concat, List.dropLast_concat]
    exact ⟨rfl, hname⟩
  · rintro ⟨hlast, hname⟩
    obtain ⟨identifier, rfl⟩ := List.getLast?_eq_some_iff.mp hlast
    rw [List.dropLast_concat] at hname
    exact ⟨identifier, hname, rfl⟩

instance (name : Text) : Decidable (Blurred name) := decidable_of_iff _ blurred_iff.symm

/-- The name under which a parameter is declared. -/
def declaredName (name : Text) : Text := if Blurred name then name.dropLast else name

/-- A parameter as it is declared. -/
def declaredParameter (p : Parameter) : Parameter := ⟨declaredName p.name, p.isFormatter⟩

theorem declaredName_append {identifier : Text} (h : Template.isName identifier) :
    declaredName (identifier ++ [CodePoint.lf]) = identifier := by
  unfold declaredName
  rw [if_pos ⟨identifier, h, rfl⟩, List.dropLast_concat]

theorem declaredName_of_not_blurred {name : Text} (h : ¬ Blurred name) : declaredName name = name :=
  if_neg h

theorem not_blurred_of_isName {name : Text} (h : Template.isName name) : ¬ Blurred name := by
  rintro ⟨identifier, -, rfl⟩
  exact Template.not_mem_of_isName h (by decide)
    (List.mem_append_right identifier List.mem_cons_self)

theorem isBare_iff {name : Text} : isBare name = true ↔ Template.isName name ∨ Blurred name := by
  unfold isBare
  rw [Bool.or_eq_true, Bool.and_eq_true, decide_eq_true_eq, blurred_iff]

/-- A name is changed exactly if it is blurred. -/
theorem declaredName_eq_self_iff {name : Text} : declaredName name = name ↔ ¬ Blurred name := by
  refine ⟨?_, declaredName_of_not_blurred⟩
  rintro heq ⟨identifier, hname, rfl⟩
  rw [declaredName_append hname] at heq
  exact List.cons_ne_nil _ _ (List.self_eq_append_right.mp heq)

/-- **Two names are declared alike** exactly if they are the same or differ in a line feed after an
identifier. -/
theorem declaredName_inj {a b : Text} (hne : a ≠ b) : declaredName a = declaredName b ↔
    ∃ identifier, Template.isName identifier ∧
      (a = identifier ∧ b = identifier ++ [CodePoint.lf] ∨
        b = identifier ∧ a = identifier ++ [CodePoint.lf]) := by
  constructor
  · intro heq
    by_cases ha : Blurred a
    · obtain ⟨x, hx, rfl⟩ := ha
      rw [declaredName_append hx] at heq
      by_cases hb : Blurred b
      · obtain ⟨y, hy, rfl⟩ := hb
        rw [declaredName_append hy] at heq
        exact absurd (congrArg (· ++ [CodePoint.lf]) heq) hne
      · rw [declaredName_of_not_blurred hb] at heq
        exact ⟨x, hx, .inr ⟨heq.symm, rfl⟩⟩
    · rw [declaredName_of_not_blurred ha] at heq
      by_cases hb : Blurred b
      · obtain ⟨y, hy, rfl⟩ := hb
        rw [declaredName_append hy] at heq
        exact ⟨y, hy, .inl ⟨heq, rfl⟩⟩
      · rw [declaredName_of_not_blurred hb] at heq
        exact absurd heq hne
  · rintro ⟨identifier, hname, ⟨rfl, rfl⟩ | ⟨rfl, rfl⟩⟩
    · rw [declaredName_append hname, declaredName_of_not_blurred (not_blurred_of_isName hname)]
    · rw [declaredName_append hname, declaredName_of_not_blurred (not_blurred_of_isName hname)]

end Declarations

/-! ### Reading object types -/

namespace ObjectType

/-- Tab, line feed, vertical tab, form feed, carriage return and space. -/
def isSpace (c : CodePoint) : Bool := c.within 0x09 0x0D || c = CodePoint.space

/-- The text without the white space in front. -/
def skip (t : Text) : Text := t.dropWhile isSpace

/-- The text after a mark, which white space may precede. -/
def mark? (mark : CodePoint) (t : Text) : Option Text := Text.dropBeginning? [mark] (skip t)

/-- The identifier at the front of a text, and what is left. -/
def identifier? (t : Text) : Option (Text × Text) :=
  match t.takeWhile Script.isNamePart with
  | [] => none
  | first :: others =>
    if Script.isNameStart first then
      some (first :: others, t.dropWhile Script.isNamePart)
    else none

/-- The name of a property: a string literal or an identifier. -/
def name? (t : Text) : Option (Text × Text) :=
  if t.head? = some CodePoint.doubleQuote then Script.string? t else identifier? t

/-- The kinds of parameters by the names of their types. -/
def kinds : Showing → List (Text × Bool)
  | .translations => [("Param", false), ("FormatFn", true)]
  | .snippets => [("SnippetParam", false), ("SnippetFormatFn", true)]

/-- The property at the front of a text, and what is left. -/
def property? (showing : Showing) (t : Text) : Option (Parameter × Text) := do
  let (name, t) ← name? (skip t)
  let t ← mark? (CodePoint.ofChar ':') t
  let (type, t) ← identifier? (skip t)
  let isFormatter ← (kinds showing).lookup type
  return (⟨name, isFormatter⟩, t)

/-- At most so many properties with commas between them, up to the closing brace, which ends the
text. -/
def properties? (showing : Showing) : Nat → Text → Option (List Parameter)
  | 0, _ => none
  | limit + 1, t => do
    let (p, t) ← property? showing t
    match mark? (CodePoint.ofChar ',') t with
    | some t => (properties? showing limit t).map (p :: ·)
    | none => if skip t = [CodePoint.closeBrace] then some [p] else none

/-- **The parameters that an object type declares.** In a quoted name two escapes that spell a
surrogate pair are read as two code points, where the declared property has the one code point of the
pair in its name. -/
def read? (showing : Showing) (t : Text) : Option (List Parameter) := do
  let t ← mark? CodePoint.openBrace t
  if skip t = [CodePoint.closeBrace] then some [] else properties? showing t.length t

/-! ### Tokens -/

theorem skip_cons {c : CodePoint} (hc : isSpace c = false) (t : Text) : skip (c :: t) = c :: t :=
  List.dropWhile_cons_of_neg (by simp [hc])

theorem skip_space (t : Text) : skip (CodePoint.space :: t) = skip t := rfl

theorem mark?_cons {mark : CodePoint} (hmark : isSpace mark = false) (t : Text) :
    mark? mark (mark :: t) = some t := by
  unfold mark?
  rw [skip_cons hmark]
  exact Text.dropBeginning?_append [mark] t

/-- Neither white space nor quotation marks begin an identifier. -/
theorem le_val_of_isNameStart {c : CodePoint} (h : Script.isNameStart c = true) : 0x24 ≤ c.val := by
  unfold Script.isNameStart CodePoint.isLetter at h
  simp only [CodePoint.within, Bool.or_eq_true, Bool.and_eq_true, decide_eq_true_eq] at h
  rcases h with ((h | h) | rfl) | rfl
  · omega
  · omega
  · decide
  · decide

theorem isSpace_of_le_val {c : CodePoint} (h : 0x24 ≤ c.val) : isSpace c = false := by
  have hne : c ≠ CodePoint.space := by
    rintro rfl
    exact absurd h (by decide)
  unfold isSpace CodePoint.within
  rw [decide_eq_false hne, Bool.or_false, Bool.and_eq_false_iff]
  exact .inr (decide_eq_false (by omega))

theorem identifier?_append {name : Text} (h : Template.isName name) {c : CodePoint}
    (hc : Script.isNamePart c = false) (rest : Text) :
    identifier? (name ++ c :: rest) = some (name, c :: rest) := by
  have hparts : ∀ d ∈ name, Script.isNamePart d = true :=
    fun _ hd => Template.isNamePart_of_mem h hd
  have hc' : ¬ Script.isNamePart c = true := by rw [hc]; exact Bool.false_ne_true
  have htake : (name ++ c :: rest).takeWhile Script.isNamePart = name := by
    rw [List.takeWhile_append_of_pos hparts, List.takeWhile_cons_of_neg hc', List.append_nil]
  have hdrop : (name ++ c :: rest).dropWhile Script.isNamePart = c :: rest := by
    rw [List.dropWhile_append_of_pos hparts, List.dropWhile_cons_of_neg hc']
  unfold identifier?
  rw [htake, hdrop]
  cases name with
  | nil => cases h
  | cons first others =>
    have hfirst : Script.isNameStart first = true := by
      unfold Template.isName at h
      exact (Bool.and_eq_true_iff.mp h).1
    simp only [hfirst, if_true]

/-- An identifier begins neither with white space nor with a quotation mark. -/
theorem skip_append_of_isName {name : Text} (h : Template.isName name) (t : Text) :
    skip (name ++ t) = name ++ t ∧ (name ++ t).head? ≠ some CodePoint.doubleQuote := by
  cases name with
  | nil => cases h
  | cons first others =>
    have hfirst : 0x24 ≤ first.val := by
      unfold Template.isName at h
      exact le_val_of_isNameStart (Bool.and_eq_true_iff.mp h).1
    refine ⟨skip_cons (isSpace_of_le_val hfirst) _, ?_⟩
    rintro ⟨⟩
    exact absurd hfirst (by decide)

theorem name?_append_of_isName {name : Text} (h : Template.isName name) {c : CodePoint}
    (hc : Script.isNamePart c = false) (rest : Text) :
    name? (skip (name ++ c :: rest)) = some (name, c :: rest) := by
  obtain ⟨hskip, hquote⟩ := skip_append_of_isName h (c :: rest)
  rw [hskip, name?, if_neg hquote, identifier?_append h hc]

/-- **The name of a property is read**, and the colon after it. -/
theorem name?_propertyName (name rest : Text) : ∃ left,
    name? (skip (Declarations.propertyName name ++ CodePoint.ofChar ':' :: rest)) =
      some (Declarations.declaredName name, left) ∧
    mark? (CodePoint.ofChar ':') left = some rest := by
  have hcolon : mark? (CodePoint.ofChar ':') (CodePoint.ofChar ':' :: rest) = some rest :=
    mark?_cons (by decide) rest
  unfold Declarations.propertyName
  split_ifs with hbare
  · rcases Declarations.isBare_iff.mp hbare with hname | ⟨identifier, hname, rfl⟩
    · rw [Declarations.declaredName_of_not_blurred (Declarations.not_blurred_of_isName hname)]
      exact ⟨_, name?_append_of_isName hname (by decide) rest, hcolon⟩
    · -- The line feed is left before the colon, where it is white space.
      rw [Declarations.declaredName_append hname, List.append_assoc]
      exact ⟨_, name?_append_of_isName hname (by decide) _, hcolon⟩
  · have hblurred : ¬ Declarations.Blurred name :=
      fun hblurred => hbare (Declarations.isBare_iff.mpr (.inr hblurred))
    have hread := @Script.string?_quoted name (CodePoint.ofChar ':') (by decide) rest
    obtain ⟨letters, hletters⟩ : ∃ letters, name.quoted = CodePoint.doubleQuote :: letters :=
      ⟨_, Text.quoted_eq name⟩
    rw [Declarations.declaredName_of_not_blurred hblurred]
    refine ⟨_, ?_, hcolon⟩
    rw [hletters, List.cons_append] at hread ⊢
    rw [skip_cons (by decide), name?, if_pos List.head?_cons, hread]

theorem lookup_parameterType (showing : Showing) (isFormatter : Bool) :
    (kinds showing).lookup (Declarations.parameterType showing isFormatter) = some isFormatter := by
  cases showing <;> cases isFormatter <;> decide

theorem isName_parameterType (showing : Showing) (isFormatter : Bool) :
    Template.isName (Declarations.parameterType showing isFormatter) := by
  cases showing <;> cases isFormatter <;> decide

/-! ### Properties -/

/-- The text that declares a parameter. -/
def propertyText (showing : Showing) (p : Parameter) : Text :=
  Declarations.propertyName p.name ++ ": " ++ Declarations.parameterType showing p.isFormatter

/-- **A property is read**, up to where the name of its type ends. -/
theorem property?_append (showing : Showing) (p : Parameter) {c : CodePoint}
    (hc : Script.isNamePart c = false) (rest : Text) :
    property? showing (propertyText showing p ++ c :: rest) =
      some (Declarations.declaredParameter p, c :: rest) := by
  let type := Declarations.parameterType showing p.isFormatter
  have htext : propertyText showing p ++ c :: rest = Declarations.propertyName p.name ++
      CodePoint.ofChar ':' :: (CodePoint.space :: (type ++ c :: rest)) := by
    unfold propertyText
    rw [List.append_assoc, List.append_assoc]
    rfl
  obtain ⟨left, hname, hcolon⟩ := name?_propertyName p.name (CodePoint.space :: (type ++ c :: rest))
  have htype : identifier? (skip (CodePoint.space :: (type ++ c :: rest))) =
      some (type, c :: rest) := by
    have hname := isName_parameterType showing p.isFormatter
    rw [skip_space, (skip_append_of_isName hname _).1, identifier?_append hname hc]
  unfold property?
  rw [htext, hname]
  simp only [bind, Option.bind_some, hcolon, htype, lookup_parameterType, type]
  rfl

theorem properties?_space (showing : Showing) (limit : Nat) (t : Text) :
    properties? showing limit (CodePoint.space :: t) = properties? showing limit t := by
  cases limit <;> rfl

theorem properties?_join (showing : Showing) {ps : List Parameter} (hne : ps ≠ []) {limit : Nat}
    (hlimit : ps.length ≤ limit) : properties? showing limit
      (Text.join ", " (ps.map (propertyText showing)) ++ [CodePoint.space, CodePoint.closeBrace]) =
        some (ps.map Declarations.declaredParameter) := by
  unfold Text.join
  induction ps generalizing limit with
  | nil => exact absurd rfl hne
  | cons p rest ih =>
    rw [List.length_cons] at hlimit
    obtain ⟨limit, rfl⟩ : ∃ n, limit = n + 1 := ⟨limit - 1, by omega⟩
    rw [Nat.add_le_add_iff_right] at hlimit
    cases rest with
    | nil =>
      have hcomma : mark? (CodePoint.ofChar ',') [CodePoint.space, CodePoint.closeBrace] = none :=
        rfl
      have hend : skip [CodePoint.space, CodePoint.closeBrace] = [CodePoint.closeBrace] := rfl
      rw [List.map_cons, List.map_nil, List.intercalate_singleton, properties?,
        property?_append showing p (by decide)]
      simp only [bind, Option.bind_some, hcomma, hend, if_true]
      rfl
    | cons next others =>
      have hrest := ih (List.cons_ne_nil next others) hlimit
      rw [List.map_cons] at hrest
      let left : Text := Text.join ", " ((next :: others).map (propertyText showing)) ++
        [CodePoint.space, CodePoint.closeBrace]
      have hjoin : List.intercalate (Text.ofString ", ")
          ((p :: next :: others).map (propertyText showing)) ++
            [CodePoint.space, CodePoint.closeBrace] =
          propertyText showing p ++ CodePoint.ofChar ',' :: (CodePoint.space :: left) := by
        rw [List.map_cons, List.map_cons, List.intercalate_cons_cons, List.append_assoc,
          List.append_assoc]
        rfl
      have hcomma : mark? (CodePoint.ofChar ',')
          (CodePoint.ofChar ',' :: (CodePoint.space :: left)) = some (CodePoint.space :: left) :=
        mark?_cons (by decide) _
      rw [hjoin, properties?, property?_append showing p (by decide)]
      simp only [bind, Option.bind_some, hcomma, properties?_space]
      rw [← List.map_cons] at hrest
      rw [show properties? showing limit left = _ from hrest]
      rfl

/-- **The text of the parameters of a key.** -/
theorem render_parameters_eq (showing : Showing) (s : Signature) :
    (Declarations.parameters showing s).render = CodePoint.openBrace :: CodePoint.space ::
      (Text.join ", " (s.parameters.map (propertyText showing)) ++
        [CodePoint.space, CodePoint.closeBrace]) := by
  have hfields : (s.parameters.map fun p => Fragment.code (Code.concat
      [Fragment.plain (Declarations.propertyName p.name), Fragment.plain ": ",
        Fragment.plain (Declarations.parameterType showing p.isFormatter)])).map Fragment.render =
          s.parameters.map (propertyText showing) := by
    rw [List.map_map]
    refine List.map_congr_left fun p _ => ?_
    rw [Function.comp_apply, Fragment.render_code, Code.render_concat]
    simp only [List.map_cons, List.map_nil, List.flatten_cons, List.flatten_nil, List.append_nil,
      Fragment.render_plain, propertyText, List.append_assoc]
  unfold Declarations.parameters
  rw [Code.render_concat]
  simp only [List.map_cons, List.map_nil, List.flatten_cons, List.flatten_nil, List.append_nil,
    Fragment.render_plain, Fragment.render_code, Code.render_join, hfields]
  rfl

theorem properties?_of_skip {t : Text} (h : skip t = [CodePoint.closeBrace]) (showing : Showing)
    (limit : Nat) : properties? showing limit t = none := by
  have hnone : property? showing t = none := by
    unfold property?
    rw [h]
    rfl
  cases limit with
  | zero => rfl
  | succ limit =>
    rw [properties?, hnone]
    rfl

/-- **What is read of the parameters of a signature**: each under the name it is declared with. -/
theorem read?_parameters (showing : Showing) (s : Signature) :
    read? showing (Declarations.parameters showing s).render =
      some (s.parameters.map Declarations.declaredParameter) := by
  let inner : Text := CodePoint.space ::
    (Text.join ", " (s.parameters.map (propertyText showing)) ++
      [CodePoint.space, CodePoint.closeBrace])
  have hproperties : s.parameters ≠ [] → properties? showing inner.length inner =
      some (s.parameters.map Declarations.declaredParameter) := by
    intro hne
    have htexts : ∀ t ∈ s.parameters.map (propertyText showing), t ≠ [] :=
      List.forall_mem_map.mpr fun p _ => by simp [propertyText, Text.ofString]
    have hlength := Text.length_le_length_join htexts ", "
    rw [List.length_map] at hlength
    rw [properties?_space]
    refine properties?_join showing hne (hlength.trans ?_)
    rw [List.length_cons, List.length_append]
    omega
  rw [render_parameters_eq, read?, mark?_cons (by decide)]
  show (if skip inner = _ then _ else properties? showing inner.length inner) = _
  split_ifs with hclose
  · have hnil : s.parameters = [] := by
      by_contra hne
      have hnone := hproperties hne
      rw [properties?_of_skip hclose] at hnone
      cases hnone
    rw [hnil]
    rfl
  · refine hproperties fun hnil => hclose ?_
    simp only [inner, hnil]
    rfl

/-! ### Signatures -/

/-- Two parameters whose names differ in a line feed after an identifier. -/
def Clash (s : Signature) : Prop := ∃ identifier, Template.isName identifier ∧
  identifier ∈ s.names ∧ identifier ++ [CodePoint.lf] ∈ s.names

theorem nodup_names (s : Signature) : s.names.Nodup := by
  have hsorted : s.names.Pairwise (· < ·) := List.pairwise_map.mpr s.sorted
  refine hsorted.imp ?_
  rintro name _ h rfl
  exact List.lt_irrefl name h

theorem nodup_declaredName_iff (s : Signature) :
    (s.names.map Declarations.declaredName).Nodup ↔ ¬ Clash s := by
  rw [List.nodup_map_iff_inj_on (nodup_names s)]
  constructor
  · rintro hinj ⟨identifier, hname, hfirst, hsecond⟩
    have hne : identifier ≠ identifier ++ [CodePoint.lf] := fun heq =>
      List.cons_ne_nil _ _ (List.self_eq_append_right.mp heq)
    refine hne (hinj _ hfirst _ hsecond ?_)
    exact (Declarations.declaredName_inj hne).mpr ⟨identifier, hname, .inl ⟨rfl, rfl⟩⟩
  · intro hclash a ha b hb heq
    by_contra hne
    obtain ⟨identifier, hname, ⟨rfl, rfl⟩ | ⟨rfl, rfl⟩⟩ :=
      (Declarations.declaredName_inj hne).mp heq
    · exact hclash ⟨_, hname, ha, hb⟩
    · exact hclash ⟨_, hname, hb, ha⟩

theorem map_declaredParameter_eq_iff (s : Signature) :
    s.parameters.map Declarations.declaredParameter = s.parameters ↔
      ∀ name ∈ s.names, ¬ Declarations.Blurred name := by
  have hmap := @List.map_inj_left _ _ s.parameters Declarations.declaredParameter id
  rw [List.map_id] at hmap
  refine hmap.trans ((forall₂_congr fun p _ => ?_).trans List.forall_mem_map.symm)
  obtain ⟨name, isFormatter⟩ := p
  rw [Declarations.declaredParameter, id, Parameter.mk.injEq, eq_self, and_true]
  exact Declarations.declaredName_eq_self_iff

/-- **The parameters of a signature read back from their type.** Each parameter is read with its
kind, in order, under the name it is declared with. They are the parameters of the signature exactly
if no name is an identifier with a line feed after it, they have different names exactly if no two
names differ in such a line feed, and two signatures without such names are told apart. -/
theorem read?_parameters_iff (showing : Showing) (s : Signature) :
    read? showing (Declarations.parameters showing s).render =
        some (s.parameters.map Declarations.declaredParameter) ∧
      (read? showing (Declarations.parameters showing s).render = some s.parameters ↔
        ∀ name ∈ s.names, ¬ Declarations.Blurred name) ∧
      ((s.names.map Declarations.declaredName).Nodup ↔ ¬ Clash s) ∧
      ∀ s' : Signature, (∀ name ∈ s.names ++ s'.names, ¬ Declarations.Blurred name) →
        read? showing (Declarations.parameters showing s).render =
          read? showing (Declarations.parameters showing s').render → s = s' := by
  have hself := map_declaredParameter_eq_iff s
  refine ⟨read?_parameters showing s, ?_, nodup_declaredName_iff s, fun s' hnames hread => ?_⟩
  · rw [read?_parameters, Option.some_inj]
    exact hself
  · obtain ⟨hs, hs'⟩ := List.forall_mem_append.mp hnames
    rw [read?_parameters, read?_parameters, Option.some_inj, hself.mpr hs,
      (map_declaredParameter_eq_iff s').mpr hs'] at hread
    cases s
    cases s'
    simpa using hread

/-- Awkward names: one is empty, one looks like a property, one begins with a digit, and one ends in
a line feed after what is no identifier. -/
def awkward (formatters : List Text) : Signature :=
  Signature.ofNames ["", "a: Param, b", "1x", "a b\n", "\"", "f"] formatters

theorem read?_parameters_iff_awkward :
    read? .translations (Declarations.parameters .translations (awkward ["f"])).render =
        some (awkward ["f"]).parameters ∧
      read? .translations (Declarations.parameters .translations (awkward ["f"])).render ≠
        read? .translations (Declarations.parameters .translations (awkward [])).render := by
  have hnames : ∀ name ∈ (awkward ["f"]).names, ¬ Declarations.Blurred name := by decide
  have hnames' : ∀ name ∈ (awkward []).names, ¬ Declarations.Blurred name := by decide
  have hne : awkward ["f"] ≠ awkward [] := by decide
  obtain ⟨-, hread, -, hinj⟩ := read?_parameters_iff .translations (awkward ["f"])
  exact ⟨hread.mpr hnames,
    fun heq => hne (hinj _ (List.forall_mem_append.mpr ⟨hnames, hnames'⟩) heq)⟩

/-- **Two parameters are declared under one name** if their names differ in a line feed after an
identifier, and two signatures whose names differ so are read alike. -/
theorem read?_parameters_twins :
    let twins := Signature.ofNames ["a", "a\n"] ["a\n"]
    read? .translations (Declarations.parameters .translations twins).render =
        some [⟨"a", false⟩, ⟨"a", true⟩] ∧
      twins.parameters = [⟨"a", false⟩, ⟨"a\n", true⟩] ∧
      read? .translations
          (Declarations.parameters .translations (Signature.ofNames ["a"] [])).render =
        read? .translations
          (Declarations.parameters .translations (Signature.ofNames ["a\n"] [])).render := by
  intro twins
  rw [read?_parameters, read?_parameters, read?_parameters]
  exact ⟨by decide, by decide, by decide⟩

end ObjectType

end Phrasebook
