import Phrasebook.Proofs.Script.Render
import Phrasebook.Proofs.Template.Names
import Phrasebook.Proofs.Text.Spelling

/-! # The code points of script

Script holds no surrogates and no carriage returns of its own, and its literals spell those of their
texts. So a property that every other code point has (`Lenient`) is one of all code points of a
string literal, of a template literal and of the scripts of a template (`Lenient.quoted`,
`Lenient.templateText`, `Lenient.compiler`), and composed script has it throughout just if its parts
do (`all_concat`, `all_separated`, `Lenient.indent`). -/

namespace Phrasebook

/-- **Every code point of a text has a property.** -/
def Text.All (P : CodePoint → Prop) (t : Text) : Prop := ∀ c ∈ t, P c

/-- Neither a surrogate nor a carriage return. -/
def CodePoint.isRegular (c : CodePoint) : Bool := !c.isSurrogate && c ≠ CodePoint.cr

/-- **A property of all code points** but surrogates and the carriage return. -/
def Lenient (P : CodePoint → Prop) : Prop := ∀ c, c.isRegular = true → P c

theorem lenient_isSurrogate : Lenient fun c => c.isSurrogate = false := by
  intro c hc
  simp only [CodePoint.isRegular, Bool.and_eq_true, Bool.not_eq_true'] at hc
  exact hc.1

open Text (All)

/-- The name and the value of a property have a property of code points throughout. -/
def AllProperty (P : CodePoint → Prop) (p : Code.PropertyName × Fragment) : Prop :=
  All P (Code.propertyName [] p.1).render ∧ All P p.2.render

section All
variable {P : CodePoint → Prop} {t u : Text}

/-! ### Composed texts -/

theorem all_append : All P (t ++ u) ↔ All P t ∧ All P u := List.forall_mem_append

theorem all_cons {c : CodePoint} : All P (c :: t) ↔ P c ∧ All P t := List.forall_mem_cons

theorem all_flatMap {α : Type} {xs : List α} {f : α → Text} :
    All P (xs.flatMap f) ↔ ∀ x ∈ xs, All P (f x) := by
  constructor
  · exact fun h x hx c hc => h c (List.mem_flatMap.mpr ⟨x, hx, hc⟩)
  · intro h c hc
    obtain ⟨x, hx, hmem⟩ := List.mem_flatMap.mp hc
    exact h x hx c hmem

theorem all_join {separator : Text} (hseparator : All P separator) {parts : List Text} :
    All P (Text.join separator parts) ↔ ∀ t ∈ parts, All P t := by
  unfold Text.join
  induction parts with
  | nil => exact ⟨fun _ => List.forall_mem_nil _, fun _ => List.forall_mem_nil _⟩
  | cons part rest ih =>
    cases rest with
    | nil => rw [List.intercalate_singleton, List.forall_mem_singleton]
    | cons next others =>
      rw [List.intercalate_cons_cons, all_append, all_append, ih, List.forall_mem_cons (a := part)]
      simp only [hseparator, and_true]

/-! ### Composed script -/

theorem all_concat {parts : List Fragment} :
    All P (Code.concat parts).render ↔ ∀ f ∈ parts, All P f.render := by
  rw [Code.render_concat, ← List.flatMap_def]
  exact all_flatMap

theorem all_separated {separator : Text} (hseparator : All P separator) {parts : List Fragment} :
    All P (Code.join (Fragment.plain separator) parts).render ↔ ∀ f ∈ parts, All P f.render := by
  rw [Code.render_join, Fragment.render_plain, all_join hseparator, List.forall_mem_map]

theorem all_padLineStarts {pad : Text} (hpad : All P pad) (h : All P t) (atLineStart : Bool) :
    All P (Code.padLineStarts pad atLineStart t) := by
  induction t generalizing atLineStart with
  | nil => exact List.forall_mem_nil _
  | cons c t ih =>
    obtain ⟨hc, ht⟩ := all_cons.mp h
    rw [Code.padLineStarts]
    split_ifs
    · exact all_cons.mpr ⟨hc, ih ht true⟩
    · exact all_append.mpr ⟨hpad, all_cons.mpr ⟨hc, ih ht false⟩⟩
    · exact all_cons.mpr ⟨hc, ih ht false⟩

namespace Lenient
variable (hP : Lenient P)
include hP

/-- A text of the generator's own. -/
theorem regular (h : t.all CodePoint.isRegular = true) : All P t :=
  fun c hc => hP c (List.all_eq_true.mp h c hc)

/-- A text of the generator's own, character by character. -/
theorem ofList {l : List Char} (h : (l.map CodePoint.ofChar).all CodePoint.isRegular = true) :
    All P (Text.ofString (String.ofList l)) := by
  refine hP.regular ?_
  unfold Text.ofString
  rw [String.toList_ofList]
  exact h

theorem padding (level : Int) : All P (Code.padding level) := by
  have hunit : All P Code.indentUnit := hP.regular (by decide)
  intro c hc
  obtain ⟨unit, hunit', hmem⟩ := List.mem_flatten.mp hc
  rw [List.eq_of_mem_replicate hunit'] at hmem
  exact hunit c hmem

theorem indent (part : Fragment) (level : Int) :
    All P (Code.indent part level).render ↔ All P part.render := by
  rw [Code.render_indent]
  unfold Code.padAfterBreaks
  rw [all_flatMap]
  refine forall₂_congr fun c hc => ?_
  split_ifs with hlf
  · have hboth : P c := hP c (by rw [hlf]; decide)
    exact ⟨fun _ => hboth, fun _ => all_cons.mpr ⟨hboth, hP.padding level⟩⟩
  · exact List.forall_mem_singleton

theorem indentLines {part : Fragment} (h : All P part.render) (level : Int) :
    All P (Code.indentLines part level).render := by
  rw [Code.render_indentLines]
  exact all_padLineStarts (hP.padding level) h true

theorem call {callee : Text} (hcallee : callee.all CodePoint.isRegular = true)
    {arguments : List Fragment} (h : ∀ f ∈ arguments, All P f.render) :
    All P (Code.call (Fragment.plain callee) arguments).render := by
  have hopen : All P "(" := hP.regular (by decide)
  have hseparator : All P ", " := hP.regular (by decide)
  have hclose : All P ")" := hP.regular (by decide)
  refine all_concat.mpr ?_
  simp only [List.forall_mem_cons]
  exact ⟨hP.regular hcallee, hopen, (all_separated hseparator).mpr h, hclose, List.forall_mem_nil _⟩

theorem object {properties : List (Code.PropertyName × Fragment)}
    (h : ∀ p ∈ properties, AllProperty P p) : All P (Code.object properties).render := by
  have hopen : All P (CodePoint.openBrace :: Code.firstBreak) := hP.regular (by decide)
  have hbreak : All P Code.entryBreak := hP.regular (by decide)
  have hclose : All P [CodePoint.lf, CodePoint.closeBrace] := hP.regular (by decide)
  have hcolon : All P ": " := hP.regular (by decide)
  cases properties with
  | nil => exact hP.regular (by decide)
  | cons first rest =>
    refine all_concat.mpr ?_
    simp only [List.forall_mem_cons]
    refine ⟨hopen, (all_separated hbreak).mpr ?_, hclose, List.forall_mem_nil _⟩
    intro f hf
    obtain ⟨p, hp, rfl⟩ := List.mem_map.mp hf
    obtain ⟨hname, hvalue⟩ := h p hp
    refine all_concat.mpr ?_
    simp only [List.forall_mem_cons]
    exact ⟨hname, hcolon, (hP.indent p.2 1).mpr hvalue, List.forall_mem_nil _⟩

end Lenient

end All

/-! ### Literals -/

namespace Text

theorem isRegular_eq_true {c : CodePoint} :
    c.isRegular = true ↔ c.isSurrogate = false ∧ c ≠ CodePoint.cr := by
  simp [CodePoint.isRegular]

theorem isRegular_of_within {c : CodePoint} (hlow : 0x20 ≤ c.val) (hhigh : c.val < 0xD800) :
    c.isRegular = true := by
  refine isRegular_eq_true.mpr ⟨?_, ?_⟩
  · simp only [CodePoint.isSurrogate, CodePoint.within, Bool.and_eq_false_iff, decide_eq_false_iff_not]
    omega
  · rintro rfl
    exact absurd hlow (by decide)

theorem isRegular_escape (c : CodePoint) : ∀ d ∈ Numeral.escape c, d.isRegular = true := by
  have hdigits : ∀ d < 16, (CodePoint.ofChar (Nat.digitChar d)).isRegular = true := by decide
  have hdigit : ∀ n, (CodePoint.ofChar (Nat.digitChar (n % 16))).isRegular = true :=
    fun n => hdigits _ (Nat.mod_lt _ (by decide))
  rw [escape_eq]
  simp only [List.map_cons, List.map_nil, List.forall_mem_cons, hdigit, true_and]
  exact ⟨by decide, by decide, List.forall_mem_nil _⟩

/-- **What spells a code point is regular**, unless a surrogate stands for itself. -/
theorem Spelling.isRegular {special : List CodePoint} {c d : CodePoint} {t : Text}
    (h : Spelling special c t) (hcr : CodePoint.cr ∈ special) (hd : d ∈ t) :
    d.isRegular = true ∨ (d = c ∧ c.isSurrogate = true) := by
  cases h with
  | @letter e he =>
    have hletter : e ≠ CodePoint.cr := by
      rintro rfl
      cases he
    have hregular := isRegular_eq_true.mpr ⟨isSurrogate_of_escaped? he, hletter⟩
    have hall : ∀ d ∈ [CodePoint.backslash, e], d.isRegular = true :=
      List.forall_mem_cons.mpr ⟨by decide, List.forall_mem_singleton.mpr hregular⟩
    exact Or.inl (hall d hd)
  | number => exact Or.inl (isRegular_escape c d hd)
  | itself h =>
    obtain rfl := List.mem_singleton.mp hd
    cases hs : d.isSurrogate with
    | true => exact Or.inr ⟨rfl, rfl⟩
    | false => exact Or.inl (isRegular_eq_true.mpr ⟨hs, fun heq => h (heq ▸ hcr)⟩)

theorem isSurrogate_of_mem_spellSurrogates {c : CodePoint} {t : Text} (h : c ∈ spellSurrogates t) :
    c.isSurrogate = false := by
  obtain ⟨d, -, hc⟩ := List.mem_flatMap.mp h
  split_ifs at hc with hd
  · exact isSurrogate_escape d c hc
  · rw [List.mem_singleton.mp hc]
    exact Bool.eq_false_iff.mpr hd

theorem isRegular_quoted (t : Text) : ∀ c ∈ t.quoted, c.isRegular = true := by
  intro c hc
  have hplain := isSurrogate_of_mem_spellSurrogates hc
  rw [quoted_eq, List.mem_append, List.mem_append, List.mem_flatMap] at hc
  rcases hc with (hc | ⟨d, -, hc⟩) | hc
  · rw [List.mem_singleton.mp hc]
    decide
  · refine ((spelling_quotedPoint d).spellSurrogates.isRegular (by decide) hc).resolve_right ?_
    rintro ⟨rfl, hs⟩
    rw [hplain] at hs
    cases hs
  · rw [List.mem_singleton.mp hc]
    decide

theorem isRegular_templateText (t : Text) :
    ∀ c ∈ Code.templateText t, c.isRegular = true := by
  intro c hc
  have hplain := isSurrogate_of_mem_spellSurrogates hc
  rw [templateText_eq, List.mem_flatMap] at hc
  obtain ⟨d, -, hc⟩ := hc
  refine ((spelling_templatePoint d).spellSurrogates.isRegular (by decide) hc).resolve_right ?_
  rintro ⟨rfl, hs⟩
  rw [hplain] at hs
  cases hs

/-- A surrogate stands for itself in a string literal whose surrogates are not spelled. -/
theorem quotedPoint_of_isSurrogate {c : CodePoint} (h : c.isSurrogate = true) :
    quotedPoint c = [c] := by
  have hne : ∀ d : CodePoint, d.isSurrogate = false → c ≠ d := by
    rintro d hd rfl
    rw [hd] at h
    cases h
  have hval : 0xD800 ≤ c.val := by
    simp only [CodePoint.isSurrogate, CodePoint.within, Bool.and_eq_true, decide_eq_true_eq] at h
    exact h.1
  unfold quotedPoint
  rw [if_neg (hne _ (by decide)), if_neg (hne _ (by decide)), if_neg (hne _ (by decide)),
    if_neg (hne _ (by decide)), if_neg (hne _ (by decide)), if_neg (by omega), if_neg (by omega),
    if_neg (by omega)]

end Text

namespace Lenient
variable {P : CodePoint → Prop} (hP : Lenient P)
include hP

theorem quoted (t : Text) : All P t.quoted := fun c hc => hP c (Text.isRegular_quoted t c hc)

theorem templateText (t : Text) : All P (Code.templateText t) :=
  fun c hc => hP c (Text.isRegular_templateText t c hc)

/-- **The surrogates of a text stand in its plain literal**, and nothing else does that the property
is not known of. -/
theorem literal {t : Text} : All P t.literal ↔ ∀ c ∈ t, c.isSurrogate = true → P c := by
  have hmark : All P [CodePoint.doubleQuote] := hP.regular (by decide)
  unfold Text.literal
  rw [all_append, all_append, all_flatMap]
  simp only [hmark, true_and, and_true]
  refine forall₂_congr fun c _ => ⟨fun h hs => ?_, fun h d hd => ?_⟩
  · rw [Text.quotedPoint_of_isSurrogate hs] at h
    exact h c (List.mem_singleton_self c)
  · rcases (Text.spelling_quotedPoint c).isRegular (by decide) hd with hregular | ⟨rfl, hs⟩
    · exact hP d hregular
    · exact h hs

theorem template {first : Text} {rest : List (Fragment × Text)}
    (h : ∀ p ∈ rest, All P p.1.render) : All P (Code.template first rest).render := by
  have hbacktick : All P [CodePoint.backtick] := hP.regular (by decide)
  have hstart : All P Code.interpolationStart := hP.regular (by decide)
  have hend : All P Code.interpolationEnd := hP.regular (by decide)
  rw [Code.render_template]
  unfold Code.templateRest
  refine all_append.mpr ⟨hbacktick, all_append.mpr ⟨all_append.mpr ⟨hP.templateText first, ?_⟩,
    hbacktick⟩⟩
  refine all_flatMap.mpr fun p hp => ?_
  exact all_append.mpr ⟨all_append.mpr ⟨all_append.mpr ⟨hstart, h p hp⟩, hend⟩,
    hP.templateText p.2⟩

theorem property_text (name : Text) {value : Fragment} (h : All P value.render) :
    AllProperty P (.text name, value) := ⟨hP.quoted name, h⟩

/-! ### Numerals and names -/

theorem ofNat (n : Nat) : All P (Numeral.ofNat n) := by
  intro c hc
  obtain ⟨d, hd, rfl⟩ := List.mem_map.mp hc
  have hdigit := Nat.isDigit_of_mem_toDigits (by decide) (by decide) hd
  have hrange : 48 ≤ d.toNat ∧ d.toNat ≤ 57 := by
    simpa [Char.isDigit, UInt32.le_iff_toNat_le] using hdigit
  have hval : (CodePoint.ofChar d).val = d.toNat := rfl
  exact hP _ (Text.isRegular_of_within (by omega) (by omega))

theorem ofInt (n : Int) : All P (Numeral.ofInt n) := by
  cases n with
  | ofNat n => exact hP.ofNat n
  | negSucc n => exact all_cons.mpr ⟨hP _ (by decide), hP.ofNat (n + 1)⟩

theorem name {name : Text} (h : Template.isName name) : All P name := by
  intro c hc
  have hpart := Template.isNamePart_of_mem h hc
  simp only [Template.isNamePart, Template.isNameStart, CodePoint.isLetter, CodePoint.isDigit,
    CodePoint.within, Bool.or_eq_true, Bool.and_eq_true, decide_eq_true_eq] at hpart
  refine hP c ?_
  rcases hpart with (((hpart | hpart) | rfl) | rfl) | hpart
  · exact Text.isRegular_of_within (by omega) (by omega)
  · exact Text.isRegular_of_within (by omega) (by omega)
  · decide
  · decide
  · exact Text.isRegular_of_within (by omega) (by omega)

/-! ### Templates -/

section Template
open Template

theorem parameterScript {name : Text} (h : isName name) : All P (parameterScript name) :=
  all_append.mpr ⟨hP.regular (by decide), hP.name h⟩

theorem applicationScript {name : Text} (h : isName name) {body : Code}
    (hbody : All P body.render) : All P (applicationScript name body).render := by
  have hopen : All P "(" := hP.regular (by decide)
  have hclose : All P ")" := hP.regular (by decide)
  refine all_concat.mpr ?_
  simp only [List.forall_mem_cons]
  exact ⟨all_append.mpr ⟨hP.parameterScript h, hopen⟩, hbody, hclose, List.forall_mem_nil _⟩

theorem chunks (elements : List Element) (h : WellNamed elements) :
    ∀ p ∈ (chunks elements).2, All P p.1.render :=
  forall_chunks (P := fun f => All P f.render) hP.parameterScript
    (fun hname hbody => hP.applicationScript hname (hP.template hbody)) elements h

/-- A list of parts between square brackets. -/
theorem list {items : List Fragment} (h : ∀ f ∈ items, All P f.render) :
    All P (Code.concat [Fragment.plain "[", Code.join (Fragment.plain ", ") items,
      Fragment.plain "]"]).render := by
  have hopen : All P "[" := hP.regular (by decide)
  have hseparator : All P ", " := hP.regular (by decide)
  have hclose : All P "]" := hP.regular (by decide)
  refine all_concat.mpr ?_
  simp only [List.forall_mem_cons]
  exact ⟨hopen, (all_separated hseparator).mpr h, hclose, List.forall_mem_nil _⟩

theorem partItems : ∀ (elements : List Element), WellNamed elements →
    ∀ f ∈ partItems elements, All P f.render
  | [], _ => by
    rw [Template.partItems]
    exact List.forall_mem_nil _
  | .text t :: rest, h => by
    rw [Template.partItems]
    exact List.forall_mem_cons.mpr ⟨hP.quoted t, partItems rest (List.forall_mem_cons.mp h).2⟩
  | .value name :: rest, h => by
    obtain ⟨hvalue, hrest⟩ := List.forall_mem_cons.mp h
    rw [Template.partItems]
    exact List.forall_mem_cons.mpr ⟨hP.parameterScript hvalue.isName_of_value,
      partItems rest hrest⟩
  | .formatter name body :: rest, h => by
    obtain ⟨hformatter, hrest⟩ := List.forall_mem_cons.mp h
    obtain ⟨hname, hbody⟩ := hformatter.of_formatter
    rw [Template.partItems]
    exact List.forall_mem_cons.mpr ⟨hP.applicationScript hname (hP.list (partItems body hbody)),
      partItems rest hrest⟩

/-- **Both scripts of a template have the property throughout.** -/
theorem compiler {source : Text} {compiled : CompiledTemplate}
    (h : compiler source = .ok compiled) :
    All P compiled.expression ∧ ∀ t, compiled.fragment = some t → All P t := by
  obtain ⟨elements, s, hparse, -, rfl⟩ := compile_eq_ok (compiler_eq_ok.mp h)
  have hnames := wellNamed_parse hparse
  have hhead : All P functionHead := hP.regular (by decide)
  constructor
  · show All P (expressionScript s elements)
    unfold expressionScript
    split_ifs
    · exact hP.quoted _
    · exact all_append.mpr ⟨hhead, hP.template (hP.chunks elements hnames)⟩
  · intro t ht
    have hfragment : fragmentScript s elements = some t := ht
    unfold fragmentScript at hfragment
    split_ifs at hfragment
    cases hfragment
    exact all_append.mpr ⟨hhead, hP.list (hP.partItems elements hnames)⟩

end Template

end Lenient

end Phrasebook
