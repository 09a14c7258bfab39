import Phrasebook.Proofs.Script.Render
import Phrasebook.Proofs.Text.Spelling

/-! # Lexing generated script

A lexer of the script language that follows line comments, string literals, template literals with
their interpolations, and brackets. It is a machine over code points with a stack of open brackets.
It refuses a closing bracket that does not match the innermost open one, a line break in a string
literal, and whatever would open a literal or a comment of another kind.

A text is *balanced* if the lexer reads it from its beginning to its end and nothing is open then.
Balanced texts may be put one after the other, between brackets, into interpolations, and they may
be indented (`Balanced.append`, `Encloses.balanced`, `balanced_template`, `Balanced.indent`);
literals are balanced whatever text they hold (`balanced_quoted`). -/

namespace Phrasebook.Lexer

/-- An open bracket. -/
inductive Bracket where
  | round
  | square
  | curly
  /-- The dollar sign and the brace that open an interpolation. -/
  | interpolation
deriving DecidableEq

/-- The code point that closes a bracket. -/
def Bracket.closer : Bracket → CodePoint
  | .round => CodePoint.ofChar ')'
  | .square => CodePoint.ofChar ']'
  | .curly | .interpolation => CodePoint.closeBrace

/-- What the lexer is in the middle of. -/
inductive Mode where
  /-- Code outside comments and literals. -/
  | code
  /-- After a slash. -/
  | slash
  /-- A line comment. -/
  | comment
  /-- A string literal. -/
  | string
  /-- A string literal, after a backslash. -/
  | stringEscape
  /-- The text of a template literal. -/
  | template
  /-- The text of a template literal, after a backslash. -/
  | templateEscape
  /-- The text of a template literal, after a dollar sign. -/
  | dollar
deriving DecidableEq

/-- What goes on after a bracket has been closed: code, or the text of a template literal. -/
def Bracket.outside : Bracket → Mode
  | .round | .square | .curly => .code
  | .interpolation => .template

/-- Where the lexer stands: the open brackets, the innermost first. -/
structure State where
  stack : List Bracket := []
  mode : Mode := .code
deriving DecidableEq

/-- Whether a code point ends a line. -/
def isLineEnd (c : CodePoint) : Bool :=
  c = CodePoint.lf || c = CodePoint.cr || c.val = 0x2028 || c.val = 0x2029

/-- The bracket that a code point of code opens. -/
def opened? (c : CodePoint) : Option Bracket :=
  if c = CodePoint.ofChar '(' then some .round
  else if c = CodePoint.ofChar '[' then some .square
  else if c = CodePoint.openBrace then some .curly
  else none

/-- Whether a code point of code closes a bracket. -/
def isCloser (c : CodePoint) : Bool :=
  c = CodePoint.ofChar ')' || c = CodePoint.ofChar ']' || c = CodePoint.closeBrace

namespace State

/-- The state after a code point that closes the innermost bracket. -/
def closed (s : State) (c : CodePoint) : Option State :=
  match s.stack with
  | [] => none
  | bracket :: stack => if c = bracket.closer then some ⟨stack, bracket.outside⟩ else none

/-- One code point further in code. An apostrophe or a backslash would begin something that is not
lexed. -/
def codeStep (s : State) (c : CodePoint) : Option State :=
  match opened? c with
  | some bracket => some ⟨bracket :: s.stack, .code⟩
  | none =>
    if isCloser c then s.closed c
    else if c = CodePoint.doubleQuote then some ⟨s.stack, .string⟩
    else if c = CodePoint.backtick then some ⟨s.stack, .template⟩
    else if c = CodePoint.ofChar '/' then some ⟨s.stack, .slash⟩
    else if c = CodePoint.singleQuote || c = CodePoint.backslash then none
    else some ⟨s.stack, .code⟩

/-- What a code point of the text of a template literal leads to. -/
def templateMode (c : CodePoint) : Mode :=
  if c = CodePoint.backtick then .code
  else if c = CodePoint.backslash then .templateEscape
  else if c = CodePoint.ofChar '$' then .dollar
  else .template

/-- **One code point further.** -/
def step (s : State) (c : CodePoint) : Option State :=
  match s.mode with
  | .code => s.codeStep c
  | .slash => if c = CodePoint.ofChar '/' then some ⟨s.stack, .comment⟩ else none
  | .comment => some ⟨s.stack, if isLineEnd c then .code else .comment⟩
  | .string =>
    if c = CodePoint.doubleQuote then some ⟨s.stack, .code⟩
    else if c = CodePoint.backslash then some ⟨s.stack, .stringEscape⟩
    else if c = CodePoint.lf || c = CodePoint.cr then none
    else some ⟨s.stack, .string⟩
  | .stringEscape =>
    if c = CodePoint.lf || c = CodePoint.cr then none else some ⟨s.stack, .string⟩
  | .template => some ⟨s.stack, templateMode c⟩
  | .templateEscape => some ⟨s.stack, .template⟩
  | .dollar =>
    if c = CodePoint.openBrace then some ⟨.interpolation :: s.stack, .code⟩
    else some ⟨s.stack, templateMode c⟩

/-- The state after a text. -/
def run (s : State) : Text → Option State
  | [] => some s
  | c :: rest => (s.step c).bind fun s => run s rest

end State

/-- **The lexer reads a text as a whole**, and at its end neither a bracket nor a literal nor a
comment is open. -/
def Balanced (t : Text) : Prop := State.run {} t = some {}

instance (t : Text) : Decidable (Balanced t) := inferInstanceAs (Decidable (_ = _))

/-! ### Runs -/

namespace State

theorem run_append (s : State) (t u : Text) :
    run s (t ++ u) = (run s t).bind fun s => run s u := by
  induction t generalizing s with
  | nil => rfl
  | cons c t ih =>
    rw [List.cons_append, run, run]
    cases s.step c with
    | none => rfl
    | some next => exact ih next

theorem run_cons {s s' : State} {c : CodePoint} (h : s.step c = some s') (rest : Text) :
    run s (c :: rest) = run s' rest := by
  rw [run, h, Option.bind_some]

/-- Brackets that are open further out do not matter to a step. -/
theorem step_below {s s' : State} {c : CodePoint} (h : s.step c = some s')
    (below : List Bracket) :
    step ⟨s.stack ++ below, s.mode⟩ c = some ⟨s'.stack ++ below, s'.mode⟩ := by
  obtain ⟨stack, mode⟩ := s
  cases mode with
  | code =>
    simp only [step, codeStep] at h ⊢
    split at h
    · cases h
      rfl
    · split_ifs at h ⊢ with hcloser
      · cases stack with
        | nil => cases h
        | cons bracket stack =>
          simp only [closed, List.cons_append] at h ⊢
          split_ifs at h ⊢
          cases h
          rfl
      all_goals
        cases h
        rfl
  | slash =>
    simp only [step] at h ⊢
    split_ifs at h ⊢
    cases h
    rfl
  | comment =>
    cases h
    rfl
  | string =>
    simp only [step] at h ⊢
    split_ifs at h ⊢ <;> cases h <;> rfl
  | stringEscape =>
    simp only [step] at h ⊢
    split_ifs at h ⊢
    cases h
    rfl
  | template =>
    cases h
    rfl
  | templateEscape =>
    cases h
    rfl
  | dollar =>
    simp only [step] at h ⊢
    split_ifs at h ⊢ <;> cases h <;> rfl

theorem run_below {s s' : State} {t : Text} (h : run s t = some s') (below : List Bracket) :
    run ⟨s.stack ++ below, s.mode⟩ t = some ⟨s'.stack ++ below, s'.mode⟩ := by
  induction t generalizing s with
  | nil =>
    cases h
    rfl
  | cons c t ih =>
    rw [run] at h
    cases hstep : s.step c with
    | none =>
      rw [hstep] at h
      cases h
    | some next =>
      rw [hstep, Option.bind_some] at h
      rw [run_cons (step_below hstep below)]
      exact ih h

end State

/-! ### Balanced texts -/

/-- A balanced text may be skipped, whatever is open around it. -/
theorem Balanced.run {t : Text} (h : Balanced t) (stack : List Bracket) (rest : Text) :
    State.run ⟨stack, .code⟩ (t ++ rest) = State.run ⟨stack, .code⟩ rest := by
  have hbelow := State.run_below h stack
  rw [State.run_append]
  simp only [List.nil_append] at hbelow
  rw [hbelow, Option.bind_some]

theorem balanced_nil : Balanced [] := rfl

theorem Balanced.append {t u : Text} (ht : Balanced t) (hu : Balanced u) : Balanced (t ++ u) := by
  unfold Balanced
  rw [ht.run]
  exact hu

theorem balanced_flatten {parts : List Text} (h : ∀ t ∈ parts, Balanced t) :
    Balanced parts.flatten := by
  induction parts with
  | nil => exact balanced_nil
  | cons t rest ih =>
    obtain ⟨ht, hrest⟩ := List.forall_mem_cons.mp h
    exact ht.append (ih hrest)

theorem balanced_join {separator : Text} (hseparator : Balanced separator) {parts : List Text}
    (h : ∀ t ∈ parts, Balanced t) : Balanced (Text.join separator parts) :=
  Text.join_induction balanced_nil Balanced.append hseparator h

/-- A text leaves brackets open and another closes them. -/
def Encloses (before after : Text) : Prop :=
  ∃ stack, State.run {} before = some ⟨stack, .code⟩ ∧ State.run ⟨stack, .code⟩ after = some {}

/-- A balanced text between brackets is balanced. -/
theorem Encloses.balanced {before after : Text} (h : Encloses before after) {t : Text}
    (ht : Balanced t) : Balanced (before ++ t ++ after) := by
  obtain ⟨stack, hbefore, hafter⟩ := h
  unfold Balanced
  rw [List.append_assoc, State.run_append, hbefore, Option.bind_some, ht.run, hafter]

theorem Balanced.encloses {t before after : Text} (ht : Balanced t) (h : Encloses before after) :
    Encloses (t ++ before) after := by
  obtain ⟨stack, hbefore, hafter⟩ := h
  exact ⟨stack, by rw [ht.run, hbefore], hafter⟩

/-- A code point that leaves the lexer in code. -/
def IsPlain (c : CodePoint) : Prop := State.step {} c = some {}

instance (c : CodePoint) : Decidable (IsPlain c) := inferInstanceAs (Decidable (_ = _))

theorem Balanced.cons {c : CodePoint} (hc : IsPlain c) {t : Text} (ht : Balanced t) :
    Balanced (c :: t) := by
  unfold Balanced
  rw [State.run_cons hc]
  exact ht

theorem balanced_of_plain {t : Text} (h : ∀ c ∈ t, IsPlain c) : Balanced t := by
  induction t with
  | nil => exact balanced_nil
  | cons c t ih =>
    obtain ⟨hc, ht⟩ := List.forall_mem_cons.mp h
    exact (ih ht).cons hc

/-- The text of a string is balanced if its characters are; the string need not be decoded. -/
theorem balanced_ofList {l : List Char} (h : Balanced (l.map CodePoint.ofChar)) :
    Balanced (Text.ofString (String.ofList l)) := by
  unfold Text.ofString
  rw [String.toList_ofList]
  exact h

/-! ### Literals -/

namespace State

/-- The text of a literal: some code points are special in it, every other one leaves the lexer in
it, and so does every code point after a backslash that is no line break. -/
structure InLiteral (mode escape : Mode) (special : List CodePoint) : Prop where
  plain : ∀ stack, ∀ c ∉ special, step ⟨stack, mode⟩ c = some ⟨stack, mode⟩
  backslash : ∀ stack, step ⟨stack, mode⟩ CodePoint.backslash = some ⟨stack, escape⟩
  escaped : ∀ stack c, c ≠ CodePoint.lf → c ≠ CodePoint.cr →
    step ⟨stack, escape⟩ c = some ⟨stack, mode⟩
  digit : ∀ d < 16, CodePoint.ofChar (Nat.digitChar d) ∉ special

theorem inLiteral_string : InLiteral .string .stringEscape Text.stringSpecial where
  plain := by
    intro stack c hc
    simp only [Text.stringSpecial, List.mem_cons, List.not_mem_nil, or_false, not_or] at hc
    simp [step, hc]
  backslash _ := rfl
  escaped := by
    intro stack c hlf hcr
    simp [step, hlf, hcr]
  digit := by decide

theorem inLiteral_template : InLiteral .template .templateEscape Text.templateSpecial where
  plain := by
    intro stack c hc
    simp only [Text.templateSpecial, List.mem_cons, List.not_mem_nil, or_false, not_or] at hc
    simp [step, templateMode, hc]
  backslash _ := rfl
  escaped _ _ _ _ := rfl
  digit := by decide

section InLiteral
variable {mode escape : Mode} {special : List CodePoint} (h : InLiteral mode escape special)
  {stack : List Bracket} {rest : Text}
include h

theorem run_spelling {c : CodePoint} {t : Text} (ht : Text.Spelling special c t) :
    run ⟨stack, mode⟩ (t ++ rest) = run ⟨stack, mode⟩ rest := by
  cases ht with
  | @letter d hd =>
    have hlf : d ≠ CodePoint.lf := by
      rintro rfl
      cases hd
    have hcr : d ≠ CodePoint.cr := by
      rintro rfl
      cases hd
    exact (run_cons (h.backslash stack) _).trans (run_cons (h.escaped stack d hlf hcr) rest)
  | number _ =>
    have hdigit : ∀ n, step ⟨stack, mode⟩ (CodePoint.ofChar (Nat.digitChar (n % 16))) =
        some ⟨stack, mode⟩ :=
      fun n => h.plain stack _ (h.digit _ (Nat.mod_lt n (by decide)))
    have hu : step ⟨stack, escape⟩ (CodePoint.ofChar 'u') = some ⟨stack, mode⟩ :=
      h.escaped stack _ (by decide) (by decide)
    rw [Text.escape_eq]
    simp only [List.map_cons, List.map_nil, List.cons_append, List.nil_append]
    rw [run_cons (h.backslash stack), run_cons hu, run_cons (hdigit _), run_cons (hdigit _),
      run_cons (hdigit _), run_cons (hdigit _)]
  | itself hc => exact run_cons (h.plain stack c hc) rest

theorem run_spellings {f : CodePoint → Text} (hf : ∀ c, Text.Spelling special c (f c)) (t : Text) :
    run ⟨stack, mode⟩ (t.flatMap f ++ rest) = run ⟨stack, mode⟩ rest := by
  induction t with
  | nil => rfl
  | cons c t ih => rw [List.flatMap_cons, List.append_assoc, run_spelling h (hf c), ih]

end InLiteral

end State

/-- A text whose code points are spelled between double quotation marks is balanced. -/
theorem balanced_string {f : CodePoint → Text}
    (hf : ∀ c, Text.Spelling Text.stringSpecial c (f c)) (t : Text) :
    Balanced ([CodePoint.doubleQuote] ++ t.flatMap f ++ [CodePoint.doubleQuote]) := by
  have hopen : State.step {} CodePoint.doubleQuote = some ⟨[], .string⟩ := rfl
  unfold Balanced
  rw [List.append_assoc, List.singleton_append, State.run_cons hopen,
    State.run_spellings State.inLiteral_string hf]
  rfl

theorem balanced_quoted (t : Text) : Balanced t.quoted := by
  rw [Text.quoted_eq]
  exact balanced_string (fun c => (Text.spelling_quotedPoint c).spellSurrogates) t

theorem balanced_literal (t : Text) : Balanced t.literal :=
  balanced_string Text.spelling_quotedPoint t

/-- What follows the opening backtick of a template literal with balanced interpolations leads to
the end of the literal. -/
theorem run_templateRest {rest : List (Fragment × Text)} (h : ∀ p ∈ rest, Balanced p.1.render)
    (first : Text) :
    State.run ⟨[], .template⟩ (Code.templateRest first rest) = some {} := by
  induction rest generalizing first with
  | nil =>
    rw [← List.append_nil first, Code.templateRest_append, Text.templateText_eq,
      State.run_spellings State.inLiteral_template
        fun c => (Text.spelling_templatePoint c).spellSurrogates]
    rfl
  | cons part rest ih =>
    obtain ⟨hpart, hrest⟩ := List.forall_mem_cons.mp h
    have hopen : ∀ u, State.run ⟨[], .template⟩ (Code.interpolationStart ++ u) =
        State.run ⟨[.interpolation], .code⟩ u := fun _ => rfl
    have hclose : ∀ u, State.run ⟨[.interpolation], .code⟩ (Code.interpolationEnd ++ u) =
        State.run ⟨[], .template⟩ u := fun _ => rfl
    rw [← List.append_nil first, Code.templateRest_append, Text.templateText_eq,
      State.run_spellings State.inLiteral_template
        fun c => (Text.spelling_templatePoint c).spellSurrogates,
      Code.templateRest_cons, List.append_assoc, List.append_assoc, hopen, hpart.run, hclose]
    exact ih hrest part.2

/-- A template literal with balanced interpolations is balanced. -/
theorem balanced_template {first : Text} {rest : List (Fragment × Text)}
    (h : ∀ p ∈ rest, Balanced p.1.render) : Balanced (Code.template first rest).render := by
  have hopen : State.step {} CodePoint.backtick = some ⟨[], .template⟩ := rfl
  unfold Balanced
  rw [Code.render_template, State.run_cons hopen]
  exact run_templateRest h first

/-! ### Indentation -/

namespace State

/-- Spaces do not matter where the lexer stands: in code, or in the text of a template literal. -/
def IsSettled (s : State) : Prop := s.mode = .code ∨ s.mode = .template

theorem isSettled_of_step_lf {s s' : State} (h : s.step CodePoint.lf = some s') : s'.IsSettled := by
  obtain ⟨stack, mode⟩ := s
  cases mode with
  | code =>
    cases (h : some (⟨stack, .code⟩ : State) = some s')
    exact Or.inl rfl
  | slash => cases h
  | comment =>
    cases (h : some (⟨stack, .code⟩ : State) = some s')
    exact Or.inl rfl
  | string => cases h
  | stringEscape => cases h
  | template =>
    cases (h : some (⟨stack, .template⟩ : State) = some s')
    exact Or.inr rfl
  | templateEscape =>
    cases h
    exact Or.inr rfl
  | dollar =>
    cases (h : some (⟨stack, .template⟩ : State) = some s')
    exact Or.inr rfl

theorem run_pad {s : State} (hs : s.IsSettled) {pad : Text} (hpad : ∀ c ∈ pad, c = CodePoint.space)
    (rest : Text) : run s (pad ++ rest) = run s rest := by
  have hspace : s.step CodePoint.space = some s := by
    obtain ⟨stack, mode⟩ := s
    rcases hs with hs | hs <;> cases hs <;> rfl
  induction pad with
  | nil => rfl
  | cons c pad ih =>
    obtain ⟨rfl, hrest⟩ := List.forall_mem_cons.mp hpad
    rw [List.cons_append, run_cons hspace, ih hrest]

/-- Spaces after line feeds do not matter. -/
theorem run_padAfterBreaks {pad : Text} (hpad : ∀ c ∈ pad, c = CodePoint.space) (t : Text)
    (s : State) : run s (Code.padAfterBreaks pad t) = run s t := by
  induction t generalizing s with
  | nil => rfl
  | cons c t ih =>
    have hcons : Code.padAfterBreaks pad (c :: t) =
        c :: ((if c = CodePoint.lf then pad else []) ++ Code.padAfterBreaks pad t) := by
      unfold Code.padAfterBreaks
      rw [List.flatMap_cons]
      split_ifs <;> rfl
    rw [hcons, run, run]
    cases hstep : s.step c with
    | none => rfl
    | some next =>
      rw [Option.bind_some, Option.bind_some, ← ih next]
      split_ifs with hc
      · subst hc
        exact run_pad (isSettled_of_step_lf hstep) hpad _
      · rfl

/-- Spaces at the beginnings of lines do not matter. -/
theorem run_padLineStarts {pad : Text} (hpad : ∀ c ∈ pad, c = CodePoint.space) (t : Text)
    (s : State) (atLineStart : Bool) (hs : atLineStart = true → s.IsSettled) :
    run s (Code.padLineStarts pad atLineStart t) = run s t := by
  induction t generalizing s atLineStart with
  | nil => rfl
  | cons c t ih =>
    rw [Code.padLineStarts]
    split_ifs with hc hstart
    · rw [run, run]
      cases hstep : s.step c with
      | none => rfl
      | some next =>
        subst hc
        exact ih next true fun _ => isSettled_of_step_lf hstep
    · rw [run_pad (hs hstart) hpad, run, run]
      cases s.step c with
      | none => rfl
      | some next => exact ih next false (by simp)
    · rw [List.nil_append, run, run]
      cases s.step c with
      | none => rfl
      | some next => exact ih next false (by simp)

end State

theorem eq_space_of_mem_padding {level : Int} {c : CodePoint} (h : c ∈ Code.padding level) :
    c = CodePoint.space := by
  obtain ⟨unit, hunit, hc⟩ := List.mem_flatten.mp h
  rw [List.eq_of_mem_replicate hunit] at hc
  exact (by decide : ∀ c ∈ Code.indentUnit, c = CodePoint.space) c hc

theorem Balanced.indent {part : Fragment} (h : Balanced part.render) (level : Int) :
    Balanced (Code.indent part level).render := by
  unfold Balanced
  rw [Code.render_indent, State.run_padAfterBreaks fun _ => eq_space_of_mem_padding]
  exact h

theorem Balanced.indentLines {part : Fragment} (h : Balanced part.render) (level : Int) :
    Balanced (Code.indentLines part level).render := by
  unfold Balanced
  rw [Code.render_indentLines, State.run_padLineStarts (fun _ => eq_space_of_mem_padding) _ _ _
    fun _ => Or.inl rfl]
  exact h

end Phrasebook.Lexer
