import Phrasebook.Proofs.Script.Render
import Phrasebook.Proofs.Script.Scan
import Phrasebook.Proofs.Text.Spelling

/-! # Taking template literals apart

A reader of template literals by the rules of the script language: it gives the texts between
interpolations with their escapes undone, and the interpolations as they stand (`readTemplate`).
Interpolations may hold any script without backticks and braces, so none is read as an expression.
What is written for texts and interpolations is read back as a whole
(`readTemplate_templateLiteral`): whatever a text ends with, the interpolation after it is
found. -/

namespace Phrasebook.Script

/-! ### The reader -/

/-- How a text of a template literal ends. -/
inductive PieceEnd where
  /-- The literal is closed. -/
  | closed
  /-- An interpolation is opened. -/
  | opened

/-- A point read before the rest of a text, if that can be read. -/
def addPoint (c : CodePoint) (read : Option (Text × PieceEnd × Text)) :
    Option (Text × PieceEnd × Text) :=
  read.map fun (t, left) => (c :: t, left)

/-- **A text of a template literal** up to the backtick that closes the literal or to the dollar
sign and the brace that open an interpolation, and what is left. A carriage return does not stand
for itself and is refused. -/
def piece? : Text → Option (Text × PieceEnd × Text)
  | [] => none
  | c :: rest =>
    if c = CodePoint.backtick then some ([], .closed, rest)
    else if c = CodePoint.backslash then
      match rest with
      | [] => none
      | e :: rest =>
        if e = CodePoint.ofChar 'u' then
          match rest with
          | d₁ :: d₂ :: d₃ :: d₄ :: rest =>
            (Numeral.hexToNat? [d₁, d₂, d₃, d₄]).bind fun n =>
              addPoint (CodePoint.ofNat n) (piece? rest)
          | _ => none
        else (Text.escaped? e).bind fun d => addPoint d (piece? rest)
    else if c = CodePoint.ofChar '$' && rest.head? = some CodePoint.openBrace then
      some ([], .opened, rest.tail)
    else if c = CodePoint.cr then none
    else addPoint c (piece? rest)

/-- The script up to the brace that closes an interpolation, and what is left. Script with a
backtick or an opening brace of its own is refused. -/
def uptoBrace? : Text → Option (Text × Text)
  | [] => none
  | c :: rest =>
    if c = CodePoint.closeBrace then some ([], rest)
    else if c = CodePoint.backtick || c = CodePoint.openBrace then none
    else (uptoBrace? rest).map fun (t, left) => (c :: t, left)

/-- **An interpolation** after its opening brace, without the space at either end, and what is
left. -/
def interpolation? (t : Text) : Option (Text × Text) :=
  (Text.dropBeginning? " " t).bind fun inside =>
    (uptoBrace? inside).bind fun (script, left) =>
      if script.getLast? = some CodePoint.space then some (script.dropLast, left) else none

/-- The texts and the interpolations of a template literal after its opening backtick. Nothing may
follow the literal. What is left after an interpolation is shorter, which the reader checks. -/
def pieces? (t : Text) : Option (List Text × List Text) :=
  match piece? t with
  | none => none
  | some (part, .closed, left) => if left.isEmpty then some ([part], []) else none
  | some (part, .opened, left) =>
    (interpolation? left).bind fun (script, rest) =>
      if _h : rest.length < t.length then
        (pieces? rest).map fun (parts, scripts) => (part :: parts, script :: scripts)
      else none
termination_by t.length

/-- **The texts and the interpolations** of the template literal that a whole text is. -/
def readTemplate (t : Text) : Option (List Text × List Text) :=
  (Text.dropBeginning? [CodePoint.backtick] t).bind pieces?

/-! ### Texts -/

theorem hexToNat?_digits (a b c d : Nat) :
    Numeral.hexToNat? ([a % 16, b % 16, c % 16, d % 16].map fun d =>
      CodePoint.ofChar (Nat.digitChar d)) =
        some (Numeral.value 16 [a % 16, b % 16, c % 16, d % 16]) := by
  have hdigit : ∀ n, Numeral.hexValue? (CodePoint.ofChar (Nat.digitChar (n % 16))) =
      some (n % 16) := fun n => Text.hexValue?_digitChar _ (Nat.mod_lt n (by decide))
  unfold Numeral.hexToNat?
  simp only [List.map_cons, List.map_nil, List.mapM_cons, List.mapM_nil, hdigit]
  rfl

/-- **A code point is read back**, however it is spelled. -/
theorem piece?_spelling {c : CodePoint} {t : Text} (h : Text.Spelling Text.templateSpecial c t)
    (rest : Text) : piece? (t ++ rest) = addPoint c (piece? rest) := by
  have hbacktick : CodePoint.backslash ≠ CodePoint.backtick := by decide
  cases h with
  | @letter d h =>
    have hu : d ≠ CodePoint.ofChar 'u' := by
      rintro rfl
      cases h
    rw [List.cons_append, List.singleton_append, piece?.eq_def]
    simp only [if_neg hbacktick, if_true, if_neg hu, h, Option.bind_some]
  | number h =>
    have hnumber := hexToNat?_digits (c.val / 4096) (c.val / 256) (c.val / 16) c.val
    rw [List.map_cons, List.map_cons, List.map_cons, List.map_singleton] at hnumber
    rw [Text.escape_eq, piece?.eq_def]
    simp only [List.map_cons, List.map_nil, List.cons_append, List.nil_append, if_neg hbacktick,
      if_true, hnumber, Option.bind_some, Text.ofNat_value_digits h]
  | itself h =>
    simp only [Text.templateSpecial, List.mem_cons, List.not_mem_nil, or_false, not_or] at h
    obtain ⟨hbacktick, hbackslash, hdollar, -, hcr⟩ := h
    rw [List.singleton_append, piece?.eq_def]
    simp only [if_neg hbacktick, if_neg hbackslash, decide_eq_false hdollar, Bool.false_and,
      Bool.false_eq_true, if_false, if_neg hcr]

theorem piece?_templateText (t rest : Text) : piece? (Code.templateText t ++ rest) =
    (piece? rest).map fun (u, left) => (t ++ u, left) := by
  rw [Text.templateText_eq]
  induction t with
  | nil => exact Option.map_id'.symm
  | cons c t ih =>
    rw [List.flatMap_cons, List.append_assoc,
      piece?_spelling (Text.spelling_templatePoint c).spellSurrogates, ih, addPoint, Option.map_map]
    rfl

/-! ### Interpolations -/

/-- Script that stands in an interpolation as it is: without backticks and braces. -/
def Bare (t : Text) : Prop :=
  ∀ c ∈ t, c ≠ CodePoint.backtick ∧ c ≠ CodePoint.openBrace ∧ c ≠ CodePoint.closeBrace

instance (t : Text) : Decidable (Bare t) :=
  inferInstanceAs (Decidable (∀ c ∈ t, _))

theorem uptoBrace?_append {t : Text} (h : Bare t) (left : Text) :
    uptoBrace? (t ++ CodePoint.closeBrace :: left) = some (t, left) := by
  induction t with
  | nil => rfl
  | cons c t ih =>
    obtain ⟨⟨hbacktick, hopen, hclose⟩, ht⟩ := List.forall_mem_cons.mp h
    rw [List.cons_append, uptoBrace?, if_neg hclose, ih ht]
    simp only [decide_eq_false hbacktick, decide_eq_false hopen, Bool.or_self, Bool.false_eq_true,
      if_false, Option.map_some]

theorem interpolation?_append {t : Text} (h : Bare t) (left : Text) :
    interpolation? (CodePoint.space :: (t ++ Code.interpolationEnd ++ left)) = some (t, left) := by
  have hspace : Bare [CodePoint.space] := List.forall_mem_singleton.mpr (by decide)
  have hplain : Bare (t ++ [CodePoint.space]) := List.forall_mem_append.mpr ⟨h, hspace⟩
  have hbegin : Text.dropBeginning? " " (CodePoint.space :: (t ++ Code.interpolationEnd ++ left)) =
      some (t ++ [CodePoint.space] ++ CodePoint.closeBrace :: left) := by
    have hsplit : CodePoint.space :: (t ++ Code.interpolationEnd ++ left) =
        Text.ofString " " ++ (t ++ [CodePoint.space] ++ CodePoint.closeBrace :: left) := by
      rw [List.append_assoc, List.append_assoc]
      rfl
    rw [hsplit, Text.dropBeginning?_append]
  rw [interpolation?, hbegin, Option.bind_some, uptoBrace?_append hplain, Option.bind_some]
  simp only [List.getLast?_concat, if_true, List.dropLast_concat]

/-! ### Template literals -/

/-- **The rest of a template literal is read back**, text by text. -/
theorem pieces?_templateRest (first : Text) {rest : List (Fragment × Text)}
    (h : ∀ p ∈ rest, Bare p.1.render) : pieces? (Code.templateRest first rest) =
      some (first :: rest.map (·.2), rest.map (·.1.render)) := by
  have hsplit : ∀ first rest, Code.templateRest first rest =
      Code.templateText first ++ Code.templateRest [] rest := by
    intro first rest
    rw [← Code.templateRest_append, List.append_nil]
  -- By induction on the interpolations, for all texts that may stand before the first one.
  induction rest generalizing first with
  | nil =>
    have hpiece : piece? (Code.templateRest first []) = some (first, .closed, []) := by
      have hends : piece? [CodePoint.backtick] = some ([], .closed, []) := rfl
      rw [hsplit, piece?_templateText, Code.templateRest_nil, hends]
      simp only [Option.map_some, List.append_nil]
    rw [pieces?, hpiece]
    rfl
  | cons p rest ih =>
    obtain ⟨hp, hrest⟩ := List.forall_mem_cons.mp h
    have hopen : Code.templateRest [] (p :: rest) = CodePoint.ofChar '$' :: CodePoint.openBrace ::
        CodePoint.space :: (p.1.render ++ Code.interpolationEnd ++ Code.templateRest p.2 rest) := by
      rw [Code.templateRest_cons]
      rfl
    have hpiece : piece? (Code.templateRest first (p :: rest)) = some (first, .opened,
        CodePoint.space :: (p.1.render ++ Code.interpolationEnd ++
          Code.templateRest p.2 rest)) := by
      have hends : ∀ left, piece? (CodePoint.ofChar '$' :: CodePoint.openBrace :: left) =
          some ([], .opened, left) := by
        intro left
        rw [piece?.eq_def]
        rfl
      rw [hsplit, piece?_templateText, hopen, hends]
      simp only [Option.map_some, List.append_nil]
    -- The reader's own check that less is left always succeeds here.
    have hless : (Code.templateRest p.2 rest).length <
        (Code.templateRest first (p :: rest)).length := by
      rw [hsplit first, hopen]
      simp only [List.length_append, List.length_cons]
      omega
    rw [pieces?, hpiece]
    simp only [interpolation?_append hp, Option.bind_some, hless, dif_pos, ih p.2 hrest,
      Option.map_some, List.map_cons]

/-- **A template literal can be taken apart again.** Of texts and one interpolation fewer a literal
is made; it is read as a whole and gives the texts, whatever they hold, and the interpolations, if
these have no backticks and no braces. Of other numbers of texts and interpolations none is
made. -/
theorem readTemplate_templateLiteral (parts : List Text) (interpolations : List Fragment) :
    (parts.length = interpolations.length + 1 → (∀ f ∈ interpolations, Bare f.render) →
      ∃ code, Code.templateLiteral parts interpolations = .ok code ∧
        readTemplate code.render = some (parts, interpolations.map Fragment.render)) ∧
    (parts.length ≠ interpolations.length + 1 →
      Code.templateLiteral parts interpolations =
        .error ⟨parts.length, interpolations.length⟩) := by
  cases parts with
  | nil => exact ⟨nofun, fun _ => rfl⟩
  | cons first rest =>
    constructor
    · intro hlength hbare
      have hfits : rest.length = interpolations.length := Nat.succ.inj hlength
      have hzip : ∀ p ∈ interpolations.zip rest, Bare p.1.render :=
        fun p hp => hbare p.1 (List.of_mem_zip hp).1
      refine ⟨Code.template first (interpolations.zip rest), if_pos hfits, ?_⟩
      have hbacktick : ∀ t, Text.dropBeginning? [CodePoint.backtick] (CodePoint.backtick :: t) =
          some t := Text.dropBeginning?_append [CodePoint.backtick]
      have hscripts : (interpolations.zip rest).map (·.1.render) =
          interpolations.map Fragment.render := by
        have hfirsts := List.map_fst_zip (Nat.le_of_eq hfits.symm)
        exact List.map_map.symm.trans (congrArg (List.map Fragment.render) hfirsts)
      rw [Code.render_template, readTemplate, hbacktick, Option.bind_some,
        pieces?_templateRest first hzip, hscripts, List.map_snd_zip (Nat.le_of_eq hfits)]
    · intro hlength
      exact if_neg fun h => hlength (congrArg (· + 1) h)

/-- Texts that end in a backslash and in a dollar sign before interpolations, of which one is empty,
and a surrogate after a backslash. -/
theorem readTemplate_templateLiteral_boundaries :
    let parts : List Text := ["a\\", "$", [CodePoint.backslash, CodePoint.ofNat 0xD800]]
    (∃ code, Code.templateLiteral parts [.plain "params.a", .plain []] = .ok code ∧
      readTemplate code.render = some (parts, [Text.ofString "params.a", []])) ∧
    Code.templateLiteral parts [] = .error ⟨3, 0⟩ := by
  intro parts
  have hbare : ∀ f ∈ [Fragment.plain "params.a", .plain []], Bare f.render := by decide
  exact ⟨(readTemplate_templateLiteral parts _).1 rfl hbare,
    (readTemplate_templateLiteral parts []).2 (by decide)⟩

end Phrasebook.Script
