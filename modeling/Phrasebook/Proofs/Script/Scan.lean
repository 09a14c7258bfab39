import Mathlib.Data.List.Forall2
import Phrasebook.Proofs.Script.Reader
import Phrasebook.Proofs.Text.Pieces

/-! # Reading the beginning of a text

Readers of string literals and of scripts that take as much of a text as they can and give what is
left (`string?`, `script?`). They stop where a generated module goes on: a literal is read up to any
code point but a space (`string?_quoted`), a script up to a comma or a line feed (`script?_append`). -/

namespace Phrasebook

/-- Pieces of which each is read as a value are all read. -/
theorem mapM_eq_some {α β : Type} {read : α → Option β} {pieces : List α} {values : List β}
    (h : List.Forall₂ (fun piece value => read piece = some value) pieces values) :
    pieces.mapM read = some values := by
  induction h with
  | nil => rfl
  | @cons piece value pieces values hfirst _ ih =>
    rw [List.mapM_cons, hfirst, ih]
    rfl

namespace Script

/-! ### As far as the reader goes -/

namespace State

/-- **The state in which the reader stops**, what it has taken by then, and what is left. -/
def longest (s : State) : Text → State × Text × Text
  | [] => (s, [], [])
  | c :: rest =>
    match s.step c with
    | none => (s, [], c :: rest)
    | some next =>
      let (last, taken, left) := longest next rest
      (last, c :: taken, left)

theorem longest_append {s last : State} {t : Text} (h : run s t = some last) {c : CodePoint}
    (hstop : last.step c = none) (rest : Text) :
    longest s (t ++ c :: rest) = (last, t, c :: rest) := by
  induction t generalizing s with
  | nil =>
    cases h
    rw [List.nil_append, longest, hstop]
  | cons d t ih =>
    rw [run] at h
    obtain ⟨next, hnext, hrun⟩ := Option.bind_eq_some_iff.mp h
    rw [List.cons_append, longest, hnext]
    simp only [ih hrun]

/-- What is complete with nothing around it goes on with spaces only. -/
theorem step_complete {e : Expression} {c : CodePoint} (h : c ≠ CodePoint.space) :
    step ⟨[], .complete e⟩ c = none := by
  show completeStep _ e c = none
  unfold completeStep
  rw [if_neg h]

theorem step_of_finish {s : State} {e : Expression} (h : s.finish = some e) {c : CodePoint}
    (hc : c = CodePoint.ofChar ',' ∨ c = CodePoint.lf) : s.step c = none := by
  have hspace : c ≠ CodePoint.space := by
    rcases hc with rfl | rfl <;> decide
  have hname : isNamePart c = false := by
    rcases hc with rfl | rfl <;> decide
  have hparenthesis : c ≠ CodePoint.ofChar '(' := by
    rcases hc with rfl | rfl <;> decide
  unfold finish at h
  split at h
  next hstack hmode =>
    obtain ⟨stack, mode⟩ := s
    cases hstack
    cases hmode
    exact step_complete hspace
  next letter letters hstack hmode =>
    obtain ⟨stack, mode⟩ := s
    cases hstack
    cases hmode
    simp [step, hname, hparenthesis, completeStep, hspace]
  next => cases h

end State

/-! ### String literals -/

/-- **The text of the string literal** that a text begins with, and what is left. The text is one of
code points: two escapes that spell a surrogate pair are read as two of them, where a script that
runs has the one code point of the pair. -/
def string? (t : Text) : Option (Text × Text) :=
  let (last, _, left) := State.longest {} t
  match last.finish with
  | some (.string u) => some (u, left)
  | _ => none

theorem string?_of_run {t u : Text} (hrun : State.run {} t = some ⟨[], .complete (.string u)⟩)
    {c : CodePoint} (hc : c ≠ CodePoint.space) (rest : Text) :
    string? (t ++ c :: rest) = some (u, c :: rest) := by
  unfold string?
  rw [State.longest_append hrun (State.step_complete hc)]
  rfl

theorem string?_quoted (t : Text) {c : CodePoint} (hc : c ≠ CodePoint.space) (rest : Text) :
    string? (t.quoted ++ c :: rest) = some (t, c :: rest) := by
  have hrun := @State.run_quoted [] [] t
  rw [List.append_nil] at hrun
  exact string?_of_run hrun hc rest

theorem string?_literal (t : Text) {c : CodePoint} (hc : c ≠ CodePoint.space) (rest : Text) :
    string? (t.literal ++ c :: rest) = some (t, c :: rest) := by
  have hrun := @State.run_literal [] [] t
  rw [List.append_nil] at hrun
  exact string?_of_run hrun hc rest

/-! ### Scripts -/

/-- **The script that a text begins with**, and what is left. -/
def script? (t : Text) : Option (Text × Text) :=
  match Text.dropBeginning? functionOpening t with
  | some body =>
    let (last, taken, left) := State.longest {} body
    last.finish.map fun _ => (functionOpening ++ taken, left)
  | none =>
    let (last, taken, left) := State.longest {} t
    last.finish.map fun _ => (taken, left)

theorem head_ne_of_readExpression {t : Text} {e : Expression} (h : readExpression t = some e) :
    ¬t <+: functionOpening := by
  intro hbegin
  cases t with
  | nil => cases h
  | cons c t =>
    obtain ⟨rest, hrest⟩ := hbegin
    have hc : c = CodePoint.ofChar '(' := (List.cons.inj hrest).1
    subst hc
    cases h

/-- **A script is read up to a comma or a line feed.** -/
theorem script?_append {t : Text} {program : Program} (h : read t = some program) {c : CodePoint}
    (hc : c = CodePoint.ofChar ',' ∨ c = CodePoint.lf) (rest : Text) :
    script? (t ++ c :: rest) = some (t, c :: rest) := by
  unfold read at h
  split at h
  next body hbody =>
    obtain rfl := Text.dropBeginning?_eq_some.mp hbody
    obtain ⟨e, he, -⟩ := Option.map_eq_some_iff.mp h
    obtain ⟨last, hrun, hfinish⟩ := Option.bind_eq_some_iff.mp he
    unfold script?
    rw [List.append_assoc, Text.dropBeginning?_append]
    simp only [State.longest_append hrun (State.step_of_finish hfinish hc), hfinish, Option.map_some]
  next hnone =>
    obtain ⟨e, he, -⟩ := Option.map_eq_some_iff.mp h
    obtain ⟨last, hrun, hfinish⟩ := Option.bind_eq_some_iff.mp he
    have hfunction : Text.dropBeginning? functionOpening (t ++ c :: rest) = none := by
      rw [Option.eq_none_iff_forall_ne_some]
      intro body hbody
      have hopening : functionOpening <+: t ++ c :: rest :=
        ⟨body, (Text.dropBeginning?_eq_some.mp hbody).symm⟩
      rcases List.prefix_or_prefix_of_prefix hopening (List.prefix_append t _) with hin | hout
      · obtain ⟨others, rfl⟩ := hin
        rw [Text.dropBeginning?_append] at hnone
        cases hnone
      · exact head_ne_of_readExpression he hout
    unfold script?
    simp only [hfunction, State.longest_append hrun (State.step_of_finish hfinish hc), hfinish,
      Option.map_some]

end Script

end Phrasebook
