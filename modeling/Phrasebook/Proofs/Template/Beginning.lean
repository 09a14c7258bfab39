import Phrasebook.Proofs.Template.Acceptance

/-! # Where a template goes wrong

The reader fails at the first code point that rules every template out. Wherever it stands, there is
a text that brings it to the end of a template (`State.completion`), so all it has gone over begins a
template; and no template goes on with a code point that it cannot go over
(`isBeginning_take_position`). It fails at the end of the text just if only the rest of a template is
missing. -/

namespace Phrasebook.Template

namespace State

/-! ### The state after a text -/

/-- **The state after a text**, if the reader gets over it. -/
def after (s : State) (t : Text) : Except Reason State := t.foldlM step s

theorem after_cons_ok {s next : State} {c : CodePoint} (h : s.step c = .ok next) (t : Text) :
    s.after (c :: t) = next.after t := by
  unfold after
  rw [List.foldlM_cons, h]
  rfl

theorem after_cons_error {s : State} {c : CodePoint} {reason : Reason}
    (h : s.step c = .error reason) (t : Text) : s.after (c :: t) = .error reason := by
  unfold after
  rw [List.foldlM_cons, h]
  rfl

theorem run_append {s s' : State} {t : Text} (h : s.after t = .ok s') (position : Nat) (u : Text) :
    run s position (t ++ u) = run s' (position + t.length) u := by
  induction t generalizing s position with
  | nil =>
    cases h
    rfl
  | cons c t ih =>
    cases hstep : s.step c with
    | error reason =>
      rw [after_cons_error hstep] at h
      cases h
    | ok next =>
      rw [after_cons_ok hstep] at h
      have hlength : position + 1 + t.length = position + (c :: t).length := by
        rw [List.length_cons]
        omega
      rw [List.cons_append, run, hstep, ← hlength]
      exact ih h (position + 1)

/-- **Where the reader fails**: it has got over all that stands before, and if a code point follows,
it cannot go over that. -/
theorem exists_after_of_run_eq_error {s : State} {position : Nat} {t : Text} {fault : SyntaxFault}
    (h : run s position t = .error fault) : ∃ done rest s', t = done ++ rest ∧
      s.after done = .ok s' ∧ fault.position = position + done.length ∧
        ∀ c, rest.head? = some c → s'.step c = .error fault.reason := by
  induction t generalizing s position with
  | nil =>
    rw [run] at h
    cases hfinish : s.finish with
    | error reason =>
      rw [hfinish] at h
      cases h
      refine ⟨[], [], s, rfl, rfl, rfl, ?_⟩
      rintro c ⟨⟩
    | ok elements =>
      rw [hfinish] at h
      cases h
  | cons c t ih =>
    rw [run] at h
    cases hstep : s.step c with
    | error reason =>
      rw [hstep] at h
      cases h
      refine ⟨[], c :: t, s, rfl, rfl, rfl, ?_⟩
      rintro d ⟨⟩
      exact hstep
    | ok next =>
      rw [hstep] at h
      obtain ⟨done, rest, s', rfl, hafter, hposition, hrest⟩ := ih h
      refine ⟨c :: done, rest, s', rfl, (after_cons_ok hstep done).trans hafter, ?_, hrest⟩
      rw [hposition, List.length_cons]
      omega

end State

/-! ### Completing a template -/

/-- What brings the reader back to text from the middle of something. -/
def Mode.completion : Mode → Text
  | .text => []
  | .escape => [CodePoint.backslash]
  | .opened => [CodePoint.ofChar 'a', CodePoint.closeBrace]
  | .naming _ | .named _ => [CodePoint.closeBrace]

namespace State

/-- **What completes a template**: the end of what the reader is in the middle of, and a closing
brace for each open formatter. -/
def completion (s : State) : Text :=
  s.mode.completion ++ List.replicate s.stack.length CodePoint.closeBrace

theorem exists_run_closeBraces (stack : List Frame) : ∀ s : State, s.mode = .text →
    s.stack = stack → ∀ position, ∃ elements,
      run s position (List.replicate stack.length CodePoint.closeBrace) = .ok elements := by
  induction stack with
  | nil =>
    intro s hs hstack position
    refine ⟨s.flushed.reverse, ?_⟩
    have hfinish : s.finish = .ok s.flushed.reverse := by
      unfold finish
      rw [hs, hstack]
      rfl
    rw [List.length_nil, List.replicate_zero, run, hfinish]
    rfl
  | cons frame stack ih =>
    intro s hs hstack position
    rw [List.length_cons, List.replicate_succ, run, step_closeBrace hs hstack]
    exact ih _ rfl rfl (position + 1)

theorem exists_after_completion (s : State) :
    ∃ next, s.after s.mode.completion = .ok next ∧ next.mode = .text ∧ next.stack = s.stack := by
  obtain ⟨stack, elements, pending, mode⟩ := s
  cases mode with
  | text => exact ⟨_, rfl, rfl, rfl⟩
  | escape => exact ⟨_, rfl, rfl, rfl⟩
  | opened => exact ⟨_, rfl, rfl, rfl⟩
  | naming letters => exact ⟨_, rfl, rfl, rfl⟩
  | named name => exact ⟨_, rfl, rfl, rfl⟩

/-- **Every state can be completed.** -/
theorem exists_run_completion (s : State) (position : Nat) :
    ∃ elements, run s position s.completion = .ok elements := by
  obtain ⟨next, hafter, hmode, hstack⟩ := s.exists_after_completion
  unfold completion
  rw [run_append hafter, ← hstack]
  exact exists_run_closeBraces next.stack next hmode rfl _

end State

/-! ### Beginnings of templates -/

/-- **A text is the beginning of a template.** -/
def IsBeginning (t : Text) : Prop := ∃ rest elements, parse (t ++ rest) = .ok elements

theorem isBeginning_of_after {t : Text} {s : State} (h : State.after {} t = .ok s) :
    IsBeginning t := by
  obtain ⟨elements, hrun⟩ := s.exists_run_completion (0 + t.length)
  exact ⟨s.completion, elements, (State.run_append h 0 s.completion).trans hrun⟩

theorem not_isBeginning_of_step {t : Text} {s : State} (h : State.after {} t = .ok s)
    {c : CodePoint} {reason : Reason} (hc : s.step c = .error reason) :
    ¬ IsBeginning (t ++ [c]) := by
  rintro ⟨rest, elements, hparse⟩
  have hfails : parse (t ++ [c] ++ rest) = .error ⟨reason, 0 + t.length⟩ := by
    unfold parse
    rw [List.append_assoc, State.run_append h, List.singleton_append, State.run, hc]
  rw [hfails] at hparse
  cases hparse

/-- **A template is refused at the first code point that is wrong.** All before it is the beginning
of a template, and with it no longer is. At the end of the text it is refused just if the text is the
beginning of a template. -/
theorem isBeginning_take_position {source : Text} {fault : SyntaxFault}
    (h : parse source = .error fault) :
    fault.position ≤ source.length ∧ IsBeginning (source.take fault.position) ∧
      (fault.position < source.length → ¬ IsBeginning (source.take (fault.position + 1))) ∧
        (fault.position = source.length ↔ IsBeginning source) := by
  obtain ⟨done, rest, s, rfl, hafter, hposition, hrest⟩ := State.exists_after_of_run_eq_error h
  rw [Nat.zero_add] at hposition
  rw [hposition]
  have hbegins : IsBeginning done := isBeginning_of_after hafter
  cases rest with
  | nil =>
    rw [List.append_nil, List.take_length]
    exact ⟨le_rfl, hbegins, fun hlt => absurd hlt (lt_irrefl _), iff_of_true rfl hbegins⟩
  | cons c rest =>
    have hwrong : ¬ IsBeginning (done ++ [c]) := not_isBeginning_of_step hafter (hrest c rfl)
    have htake : (done ++ c :: rest).take (done.length + 1) = done ++ [c] := by
      rw [List.take_length_add_append, List.take_succ_cons, List.take_zero]
    have hwhole : ¬ IsBeginning (done ++ c :: rest) := by
      rintro ⟨more, elements, hparse⟩
      refine hwrong ⟨rest ++ more, elements, ?_⟩
      rw [← hparse, List.append_assoc, List.append_assoc]
      rfl
    have hlength : done.length < (done ++ c :: rest).length := by
      rw [List.length_append, List.length_cons]
      omega
    rw [List.take_left, htake]
    exact ⟨hlength.le, hbegins, fun _ => hwrong, iff_of_false hlength.ne hwhole⟩

/-- A letter after the name and a space in an inner placeholder, and a template of which the closing
braces are missing after a last backslash. -/
theorem isBeginning_take_position_nested :
    let wrong : Text := "\x7bf:x \x7ba b\x7d\x7d"
    let unfinished : Text := "\x7bf:\x7bg:\\"
    (parse wrong = .error ⟨.unexpected (CodePoint.ofChar 'b'), 8⟩ ∧ IsBeginning (wrong.take 8) ∧
      ¬ IsBeginning (wrong.take 9)) ∧
      parse unfinished = .error ⟨.unclosedBrace, 7⟩ ∧ IsBeginning unfinished := by
  intro wrong unfinished
  have hwrong : parse wrong = .error ⟨.unexpected (CodePoint.ofChar 'b'), 8⟩ := rfl
  have hunfinished : parse unfinished = .error ⟨.unclosedBrace, 7⟩ := rfl
  obtain ⟨-, hbegins, hends, -⟩ := isBeginning_take_position hwrong
  exact ⟨⟨hwrong, hbegins, hends (by decide)⟩, hunfinished,
    (isBeginning_take_position hunfinished).2.2.2.mp rfl⟩

end Phrasebook.Template
