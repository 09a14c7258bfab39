import Mathlib.Tactic.SplitIfs
import Phrasebook.Proofs.Script.Expression
import Phrasebook.Proofs.Text.Spelling

/-! # Reading generated script

A reader of expressions by the rules of the script language: string literals between double
quotation marks, template literals between backticks with their interpolations, array literals,
parameters and parameters applied to an argument. It is a machine over code points. Whatever
encloses the place where it stands lies on a stack; each code point takes it one step on or is
refused.

Main statements: reading what `Text.quoted` writes gives the text back (`run_quoted`), and so does
reading the text of a template literal (`run_templateText`), whatever code points it holds. -/

namespace Phrasebook.Script

/-- What encloses the expression being read. -/
inductive Frame where
  /-- An interpolation: the parts of the template literal before it, the last one first, and the
  text just before it. -/
  | interpolation (parts : List (Text × Expression)) (before : Text)
  /-- The argument of a parameter. -/
  | argument (name : Text)
  /-- An array literal: the items before, the last one first. -/
  | items (before : List Expression)

/-- The kind of literal that is being read. -/
inductive Quote where
  | string
  /-- A template literal, with the parts before, the last one first. -/
  | template (parts : List (Text × Expression))

/-- What the reader is in the middle of. -/
inductive Mode where
  /-- Before an expression. -/
  | start
  /-- The text of a literal, its last code point first. -/
  | literal (q : Quote) (letters : Text)
  /-- A literal, after a backslash. -/
  | escape (q : Quote) (letters : Text)
  /-- A literal, after the first hexadecimal digits of an escaped code point. -/
  | unicode (q : Quote) (letters : Text) (digits : List Nat)
  /-- A template literal, after a dollar sign. -/
  | dollar (parts : List (Text × Expression)) (letters : Text)
  /-- Before the name of a parameter, with the letters left of what leads to it. -/
  | leading (left : Text)
  /-- The name of a parameter, its last letter first. -/
  | naming (letters : Text)
  /-- After an expression. -/
  | complete (e : Expression)

/-- Where the reader stands. -/
structure State where
  /-- What encloses the place, the innermost first. -/
  stack : List Frame := []
  mode : Mode := .start

/-- What leads to the name of a parameter. -/
def parameterLead : Text := "params."

/-- Whether a code point may begin a name. -/
def isNameStart (c : CodePoint) : Bool :=
  c.isLetter || c = CodePoint.ofChar '_' || c = CodePoint.ofChar '$'

/-- Whether a code point may go on with a name. -/
def isNamePart (c : CodePoint) : Bool := isNameStart c || c.isDigit

namespace State

/-- One code point further before an expression. -/
def startStep (s : State) (c : CodePoint) : Option State :=
  if c = CodePoint.space then some s
  else if c = CodePoint.doubleQuote then some { s with mode := .literal .string [] }
  else if c = CodePoint.backtick then some { s with mode := .literal (.template []) [] }
  else if c = CodePoint.ofChar '[' then some { stack := .items [] :: s.stack, mode := .start }
  else if c = CodePoint.ofChar ']' then
    match s.stack with
    | .items [] :: stack => some { stack, mode := .complete (.array []) }
    | _ => none
  else if [c] = parameterLead.take 1 then some { s with mode := .leading (parameterLead.drop 1) }
  else none

/-- One code point further after an expression. -/
def completeStep (s : State) (e : Expression) (c : CodePoint) : Option State :=
  if c = CodePoint.space then some { s with mode := .complete e }
  else
    match s.stack with
    | .interpolation parts before :: stack =>
      if c = CodePoint.closeBrace then
        some { stack, mode := .literal (.template ((before, e) :: parts)) [] }
      else none
    | .argument name :: stack =>
      if c = CodePoint.ofChar ')' then some { stack, mode := .complete (.application name e) }
      else none
    | .items before :: stack =>
      if c = CodePoint.ofChar ',' then
        some { stack := .items (e :: before) :: stack, mode := .start }
      else if c = CodePoint.ofChar ']' then
        some { stack, mode := .complete (.array (e :: before).reverse) }
      else none
    | [] => none

/-- One code point further in the text of a string literal, which holds no line break. -/
def stringStep (s : State) (letters : Text) (c : CodePoint) : Option State :=
  if c = CodePoint.doubleQuote then some { s with mode := .complete (.string letters.reverse) }
  else if c = CodePoint.backslash then some { s with mode := .escape .string letters }
  else if c = CodePoint.lf || c = CodePoint.cr then none
  else some { s with mode := .literal .string (c :: letters) }

/-- One code point further in the text of a template literal. A carriage return does not stand for
itself there and is refused. -/
def templateStep (s : State) (parts : List (Text × Expression)) (letters : Text) (c : CodePoint) :
    Option State :=
  if c = CodePoint.backtick then
    some { s with mode := .complete (.template parts.reverse letters.reverse) }
  else if c = CodePoint.backslash then some { s with mode := .escape (.template parts) letters }
  else if c = CodePoint.ofChar '$' then some { s with mode := .dollar parts letters }
  else if c = CodePoint.cr then none
  else some { s with mode := .literal (.template parts) (c :: letters) }

/-- One code point further after a dollar sign: a brace opens an interpolation, otherwise the dollar
sign stands for itself. -/
def dollarStep (s : State) (parts : List (Text × Expression)) (letters : Text) (c : CodePoint) :
    Option State :=
  if c = CodePoint.openBrace then
    some { stack := .interpolation parts letters.reverse :: s.stack, mode := .start }
  else s.templateStep parts (CodePoint.ofChar '$' :: letters) c

/-- One code point further among the four digits of an escaped code point. -/
def unicodeStep (s : State) (q : Quote) (letters : Text) (digits : List Nat) (c : CodePoint) :
    Option State :=
  (Numeral.hexValue? c).map fun d =>
    if digits.length = 3 then
      { s with mode := .literal q (CodePoint.ofNat (Numeral.value 16 (digits ++ [d])) :: letters) }
    else { s with mode := .unicode q letters (digits ++ [d]) }

/-- **One code point further.** -/
def step (s : State) (c : CodePoint) : Option State :=
  match s.mode with
  | .start => s.startStep c
  | .literal .string letters => s.stringStep letters c
  | .literal (.template parts) letters => s.templateStep parts letters c
  | .escape q letters =>
    if c = CodePoint.ofChar 'u' then some { s with mode := .unicode q letters [] }
    else (Text.escaped? c).map fun d => { s with mode := .literal q (d :: letters) }
  | .unicode q letters digits => s.unicodeStep q letters digits c
  | .dollar parts letters => s.dollarStep parts letters c
  | .leading [] => none
  | .leading (letter :: left) =>
    if c = letter then
      some { s with mode := if left.isEmpty then .naming [] else .leading left }
    else none
  | .naming [] => if isNameStart c then some { s with mode := .naming [c] } else none
  | .naming letters =>
    if isNamePart c then some { s with mode := .naming (c :: letters) }
    else if c = CodePoint.ofChar '(' then
      some { stack := .argument letters.reverse :: s.stack, mode := .start }
    else s.completeStep (.parameter letters.reverse) c
  | .complete e => s.completeStep e c

/-- The state after a text. -/
def run (s : State) : Text → Option State
  | [] => some s
  | c :: rest => (s.step c).bind fun s => run s rest

/-- The expression that has been read, when nothing is open any more. -/
def finish (s : State) : Option Expression :=
  match s.stack, s.mode with
  | [], .complete e => some e
  | [], .naming (letter :: letters) => some (.parameter (letter :: letters).reverse)
  | _, _ => none

end State

/-- The expression that a whole text is. -/
def readExpression (t : Text) : Option Expression := (State.run {} t).bind State.finish

/-- What opens a function of the parameters. -/
def functionOpening : Text := "(params) => "

/-- **The script that a whole text is.** -/
def read (t : Text) : Option Program :=
  match Text.dropBeginning? functionOpening t with
  | some body => (readExpression body).map .function
  | none => (readExpression t).map .constant

/-! ### Reading literals -/

/-- The code points that do not stand for themselves in a literal. -/
def Quote.special : Quote → List CodePoint
  | .string => Text.stringSpecial
  | .template _ => Text.templateSpecial

namespace State

variable {stack : List Frame} {q : Quote} {parts : List (Text × Expression)} {letters rest : Text}

theorem run_cons {s s' : State} {c : CodePoint} (h : s.step c = some s') (rest : Text) :
    run s (c :: rest) = run s' rest := by
  rw [run, h, Option.bind_some]

theorem step_literal {c : CodePoint} (h : c ∉ q.special) :
    step ⟨stack, .literal q letters⟩ c = some ⟨stack, .literal q (c :: letters)⟩ := by
  cases q with
  | string =>
    simp only [Quote.special, Text.stringSpecial, List.mem_cons, List.not_mem_nil, or_false,
      not_or] at h
    obtain ⟨h1, h2, h3, h4⟩ := h
    simp [step, stringStep, h1, h2, h3, h4]
  | template parts =>
    simp only [Quote.special, Text.templateSpecial, List.mem_cons, List.not_mem_nil, or_false,
      not_or] at h
    obtain ⟨h1, h2, h3, h4, h5⟩ := h
    simp [step, templateStep, h1, h2, h3, h5]

theorem step_backslash :
    step ⟨stack, .literal q letters⟩ CodePoint.backslash = some ⟨stack, .escape q letters⟩ := by
  cases q <;> rfl

theorem step_escape {c d : CodePoint} (h : Text.escaped? d = some c) :
    step ⟨stack, .escape q letters⟩ d = some ⟨stack, .literal q (c :: letters)⟩ := by
  have hu : d ≠ CodePoint.ofChar 'u' := by
    rintro rfl
    cases h
  simp [step, hu, h]

theorem step_digit {digits : List Nat} {d : Nat} (hd : d < 16) (hl : digits.length < 3) :
    step ⟨stack, .unicode q letters digits⟩ (CodePoint.ofChar (Nat.digitChar d)) =
      some ⟨stack, .unicode q letters (digits ++ [d])⟩ := by
  have hne : digits.length ≠ 3 := by omega
  simp [step, unicodeStep, Text.hexValue?_digitChar d hd, hne]

theorem step_lastDigit {digits : List Nat} {d : Nat} (hd : d < 16) (hl : digits.length = 3) :
    step ⟨stack, .unicode q letters digits⟩ (CodePoint.ofChar (Nat.digitChar d)) =
      some ⟨stack, .literal q (CodePoint.ofNat (Numeral.value 16 (digits ++ [d])) :: letters)⟩ := by
  simp [step, unicodeStep, Text.hexValue?_digitChar d hd, hl]

/-- A code point spelled by its number is read back. -/
theorem run_number {c : CodePoint} (h : c.val < 0x10000) :
    run ⟨stack, .literal q letters⟩ (Numeral.escape c ++ rest) =
      run ⟨stack, .literal q (c :: letters)⟩ rest := by
  rw [Text.escape_eq]
  simp only [List.map_cons, List.map_nil, List.cons_append, List.nil_append]
  have hmod : ∀ n, n % 16 < 16 := fun n => Nat.mod_lt n (by decide)
  have hu : step ⟨stack, .escape q letters⟩ (CodePoint.ofChar 'u') =
      some ⟨stack, .unicode q letters []⟩ := rfl
  rw [run_cons step_backslash, run_cons hu, run_cons (step_digit (hmod _) (by simp)),
    run_cons (step_digit (hmod _) (by simp)), run_cons (step_digit (hmod _) (by simp)),
    run_cons (step_lastDigit (hmod _) rfl)]
  simp only [List.nil_append, List.cons_append]
  rw [Text.ofNat_value_digits h]

theorem run_spelling {c : CodePoint} {t : Text} (h : Text.Spelling q.special c t) :
    run ⟨stack, .literal q letters⟩ (t ++ rest) = run ⟨stack, .literal q (c :: letters)⟩ rest := by
  cases h with
  | letter h => exact (run_cons step_backslash _).trans (run_cons (step_escape h) _)
  | number h => exact run_number h
  | itself h => exact run_cons (step_literal h) _

theorem run_spellings {f : CodePoint → Text} (h : ∀ c, Text.Spelling q.special c (f c)) (t : Text) :
    run ⟨stack, .literal q letters⟩ (t.flatMap f ++ rest) =
      run ⟨stack, .literal q (t.reverse ++ letters)⟩ rest := by
  induction t generalizing letters with
  | nil => rfl
  | cons c t ih =>
    rw [List.flatMap_cons, List.append_assoc, run_spelling (h c), ih, List.reverse_cons,
      List.append_assoc, List.singleton_append]

/-- **A string literal is read back**, however its code points are spelled. -/
theorem run_string {f : CodePoint → Text} (h : ∀ c, Text.Spelling Text.stringSpecial c (f c))
    (t : Text) : run ⟨stack, .start⟩
      ([CodePoint.doubleQuote] ++ t.flatMap f ++ [CodePoint.doubleQuote] ++ rest) =
        run ⟨stack, .complete (.string t)⟩ rest := by
  have hopen : step ⟨stack, .start⟩ CodePoint.doubleQuote =
      some ⟨stack, .literal .string []⟩ := rfl
  have hclose : step ⟨stack, .literal .string t.reverse⟩ CodePoint.doubleQuote =
      some ⟨stack, .complete (.string t)⟩ := by
    simp [step, stringStep]
  rw [List.append_assoc, List.append_assoc, List.singleton_append, run_cons hopen,
    run_spellings (q := .string) h, List.append_nil, List.singleton_append, run_cons hclose]

/-- **A quoted text is read back.** -/
theorem run_quoted (t : Text) :
    run ⟨stack, .start⟩ (t.quoted ++ rest) = run ⟨stack, .complete (.string t)⟩ rest := by
  rw [Text.quoted_eq]
  exact run_string (fun c => (Text.spelling_quotedPoint c).spellSurrogates) t

theorem run_literal (t : Text) :
    run ⟨stack, .start⟩ (t.literal ++ rest) = run ⟨stack, .complete (.string t)⟩ rest :=
  run_string Text.spelling_quotedPoint t

/-- **The text of a template literal is read back.** -/
theorem run_templateText (t : Text) :
    run ⟨stack, .literal (.template parts) letters⟩ (Code.templateText t ++ rest) =
      run ⟨stack, .literal (.template parts) (t.reverse ++ letters)⟩ rest := by
  rw [Text.templateText_eq]
  exact run_spellings (q := .template parts)
    (fun c => (Text.spelling_templatePoint c).spellSurrogates) t

/-! ### Reading parameters and interpolations -/

theorem run_nameParts {name : Text} (h : ∀ c ∈ name, isNamePart c = true) {first : CodePoint} :
    run ⟨stack, .naming (first :: letters)⟩ (name ++ rest) =
      run ⟨stack, .naming (name.reverse ++ first :: letters)⟩ rest := by
  induction name generalizing first letters with
  | nil => rfl
  | cons c name ih =>
    obtain ⟨hc, hname⟩ := List.forall_mem_cons.mp h
    have hstep : step ⟨stack, .naming (first :: letters)⟩ c =
        some ⟨stack, .naming (c :: first :: letters)⟩ := by simp [step, hc]
    rw [List.cons_append, run_cons hstep, ih hname, List.reverse_cons, List.append_assoc,
      List.singleton_append]

/-- The name of a parameter is read. -/
theorem run_parameter {first : CodePoint} {name : Text} (hfirst : isNameStart first = true)
    (hname : ∀ c ∈ name, isNamePart c = true) :
    run ⟨stack, .start⟩ (parameterLead ++ (first :: name) ++ rest) =
      run ⟨stack, .naming (first :: name).reverse⟩ rest := by
  have hlead : run ⟨stack, .start⟩ (parameterLead ++ ((first :: name) ++ rest)) =
      run ⟨stack, .naming []⟩ ((first :: name) ++ rest) := rfl
  have hstep : step ⟨stack, .naming []⟩ first = some ⟨stack, .naming [first]⟩ := by
    simp [step, hfirst]
  rw [List.append_assoc, hlead, List.cons_append, run_cons hstep, run_nameParts hname,
    List.reverse_cons]

theorem run_openInterpolation :
    run ⟨stack, .literal (.template parts) letters⟩ (Code.interpolationStart ++ rest) =
      run ⟨.interpolation parts letters.reverse :: stack, .start⟩ rest := rfl

end State

end Phrasebook.Script
