import Mathlib.Data.List.Basic
import Phrasebook.Rebuild.Scheduler

/-! # No request is lost

A run of a scheduler interleaves requests with the steps of its consumers: the first step of a
consumer, the end of a compile that succeeds or whose failure is reported, and the end of a rest
(`Step`, `Reachable`). A request is open until a compile starts after it. In every state of a run a
compile is still to start for each open request: the scheduler is not idle, and either another
compile is pending or its consumer has yet to begin (`not_open_of_idle_and_covered`). -/

namespace Phrasebook.Scheduler

/-! ### Runs -/

/-- What happens in a run of a scheduler. -/
inductive Event where
  | requested
  /-- A compile was started. -/
  | started
deriving DecidableEq

/-- The compiles that were started from one state to another. -/
def starts (s s' : Scheduler) : List Event := List.replicate (s'.runs - s.runs) .started

theorem starts_eq_nil {s s' : Scheduler} (h : s'.runs = s.runs) : starts s s' = [] := by
  unfold starts
  rw [h, Nat.sub_self]
  rfl

theorem starts_eq_singleton {s s' : Scheduler} (h : s'.runs = s.runs + 1) :
    starts s s' = [.started] := by
  unfold starts
  rw [h, Nat.add_sub_cancel_left]
  rfl

/-- **One step of a scheduler** that is not closed, and what happens in it. Who may do a step may do
it at any time. -/
inductive Step : Scheduler → List Event → Scheduler → Prop where
  | request (s : Scheduler) : Step s [.requested] s.request
  | begin {s : Scheduler} {i : Nat} (h : s.consumers[i]? = some .waiting) :
      Step s (starts s (s.begin i)) (s.begin i)
  | endCompile {s : Scheduler} {i : Nat} {how : CompileEnd} (h : s.consumers[i]? = some .compiling)
      (hreported : how ≠ .escaped) : Step s (starts s (s.endCompile i how)) (s.endCompile i how)
  | endRest {s : Scheduler} {i : Nat} (h : s.consumers[i]? = some .resting) :
      Step s (starts s (s.endRest i)) (s.endRest i)

/-- **A state that a new scheduler can come to**, and what has happened by then, in order. -/
inductive Reachable : Scheduler → List Event → Prop where
  | new : Reachable {} []
  | step {s s' : Scheduler} {log events : List Event} (h : Reachable s log)
      (hstep : Step s events s') : Reachable s' (log ++ events)

/-- **A request is open**: no compile was started after it. -/
def HasOpen (log : List Event) : Prop :=
  ∃ before after, log = before ++ .requested :: after ∧ .started ∉ after

theorem not_hasOpen_nil : ¬ HasOpen [] := by
  rintro ⟨before, after, h, -⟩
  exact absurd h.symm (by simp)

/-- The start of a compile leaves no request open. -/
theorem not_hasOpen_started (log : List Event) : ¬ HasOpen (log ++ [.started]) := by
  rintro ⟨before, after, h, hafter⟩
  have hlast : (before ++ .requested :: after).getLast? = some .started := by
    rw [← h, List.getLast?_concat]
  rw [List.getLast?_append_cons] at hlast
  cases after with
  | nil => cases hlast
  | cons event after =>
    rw [List.getLast?_cons_cons] at hlast
    exact hafter (List.mem_of_getLast? hlast)

/-! ### Steps of a consumer -/

section Consumer
variable {s : Scheduler} {i : Nat}

theorem getElem?_moveTo {stage : Stage} (h : s.consumers[i]? = some stage) (next : Stage) (j : Nat) :
    (s.moveTo i next).consumers[j]? = if j = i then some next else s.consumers[j]? := by
  have hi : i < s.consumers.length := (List.getElem?_eq_some_iff.mp h).1
  unfold moveTo
  rw [List.getElem?_set]
  by_cases hj : j = i
  · subst hj
    rw [if_pos rfl, if_pos hi, if_pos rfl]
  · rw [if_neg (Ne.symm hj), if_neg hj]

theorem begin_eq (h : s.consumers[i]? = some .waiting) : s.begin i = s.startCompile i := if_pos h

/-- **A compile that ends in a reported way** is followed by a rest, and nothing starts. -/
theorem endCompile_spec {how : CompileEnd} (h : s.consumers[i]? = some .compiling)
    (hreported : how ≠ .escaped) : starts s (s.endCompile i how) = [] ∧
      (s.endCompile i how).consumers = (s.moveTo i .resting).consumers ∧
        (s.endCompile i how).activity = s.activity ∧ (s.endCompile i how).current = s.current := by
  unfold endCompile
  rw [if_pos h]
  cases how with
  | succeeded => exact ⟨starts_eq_nil rfl, rfl, rfl, rfl⟩
  | failed complaint => exact ⟨starts_eq_nil rfl, rfl, rfl, rfl⟩
  | escaped => exact absurd rfl hreported

theorem endRest_pending (h : s.consumers[i]? = some .resting)
    (hpending : s.activity = .runningWithPending) :
    s.endRest i = { s.startCompile i with activity := .running } := by
  unfold endRest
  rw [if_pos h, if_pos hpending]

theorem endRest_done (h : s.consumers[i]? = some .resting)
    (hpending : s.activity ≠ .runningWithPending) :
    s.endRest i = { s.moveTo i .finished with activity := .idle } := by
  unfold endRest
  rw [if_pos h, if_neg hpending]

end Consumer

/-! ### The invariant -/

/-- **Every open request is covered.** A consumer with steps to come is the current one, and there is
one just if the scheduler is not idle. While the scheduler is running with nothing pending, a request
is open only if the consumer has yet to begin. -/
structure Covers (s : Scheduler) (log : List Event) : Prop where
  only : ∀ i stage, s.consumers[i]? = some stage → stage.isLive = true →
    s.current = some i ∧ s.activity ≠ .idle
  busy : s.activity ≠ .idle → ∃ i stage, s.current = some i ∧ s.consumers[i]? = some stage ∧
    stage.isLive = true
  idle : s.activity = .idle → ¬ HasOpen log
  running : s.activity = .running → HasOpen log → s.stage? = some .waiting

theorem covers_new : Covers {} [] where
  only := by simp
  busy := by simp
  idle := fun _ => not_hasOpen_nil
  running := by simp

section Covers
variable {s : Scheduler} {log : List Event} {i : Nat}

theorem stage?_eq {stage : Stage} (hi : s.current = some i) (h : s.consumers[i]? = some stage) :
    s.stage? = some stage := by
  unfold stage?
  rw [hi, Option.bind_some, h]

theorem Covers.not_hasOpen (h : Covers s log) {stage : Stage} (hi : s.consumers[i]? = some stage)
    (hlive : stage.isLive = true) (hbegun : stage ≠ .waiting)
    (hpending : s.activity ≠ .runningWithPending) : ¬ HasOpen log := by
  intro hopen
  obtain ⟨hcurrent, hactive⟩ := h.only i stage hi hlive
  have hrunning : s.activity = .running := by
    cases hactivity : s.activity with
    | idle => exact absurd hactivity hactive
    | running => rfl
    | runningWithPending => exact absurd hactivity hpending
  have hwaiting := h.running hrunning hopen
  rw [stage?_eq hcurrent hi] at hwaiting
  exact hbegun (Option.some.inj hwaiting)

theorem Covers.request (h : Covers s log) : Covers s.request (log ++ [.requested]) := by
  unfold Scheduler.request
  cases hactivity : s.activity with
  | idle =>
    -- All consumers have ended, and a new one waits to begin.
    have hnew : (s.consumers ++ [Stage.waiting])[s.consumers.length]? = some .waiting :=
      List.getElem?_concat_length
    refine ⟨fun i stage hi hlive => ?_, fun _ => ⟨_, _, rfl, hnew, rfl⟩, nofun,
      fun _ _ => stage?_eq rfl hnew⟩
    rcases Nat.lt_or_ge i s.consumers.length with hlt | hge
    · have hold : s.consumers[i]? = some stage := by
        rwa [List.getElem?_append_left hlt] at hi
      exact absurd hactivity (h.only i stage hold hlive).2
    · have hi' : i < (s.consumers ++ [Stage.waiting]).length := (List.getElem?_eq_some_iff.mp hi).1
      rw [List.length_append, List.length_singleton] at hi'
      have hsame : i = s.consumers.length := by omega
      exact ⟨congrArg some hsame.symm, nofun⟩
  | running =>
    have hactive : s.activity ≠ .idle := by rw [hactivity]; nofun
    exact ⟨fun i stage hi hlive => ⟨(h.only i stage hi hlive).1, nofun⟩, fun _ => h.busy hactive,
      nofun, nofun⟩
  | runningWithPending =>
    have hactive : s.activity ≠ .idle := by rw [hactivity]; nofun
    refine ⟨h.only, h.busy, fun hidle => absurd hidle hactive, fun hrunning => ?_⟩
    rw [hactivity] at hrunning
    cases hrunning

theorem Covers.moveTo (h : Covers s log) (next : Stage) {stage : Stage}
    (hi : s.consumers[i]? = some stage) (hlive : stage.isLive = true)
    (hnext : next.isLive = true) {s' : Scheduler} {log' : List Event}
    (hconsumers : s'.consumers = (s.moveTo i next).consumers) (hcurrent : s'.current = s.current)
    (hactive : s'.activity ≠ .idle) (hrunning : s'.activity = .running → ¬ HasOpen log') :
    Covers s' log' := by
  have hi' := (h.only i stage hi hlive).1
  refine ⟨fun j other hj hother => ⟨?_, hactive⟩, fun _ => ⟨i, next, ?_, ?_, hnext⟩,
    fun hidle => absurd hidle hactive, fun hactivity hopen => absurd hopen (hrunning hactivity)⟩
  · rw [hconsumers, getElem?_moveTo hi] at hj
    rw [hcurrent]
    split_ifs at hj with hsame
    · rw [hsame, hi']
    · exact (h.only j other hj hother).1
  · rw [hcurrent, hi']
  · rw [hconsumers, getElem?_moveTo hi, if_pos rfl]

/-- **A step keeps open requests covered.** -/
theorem Covers.step (h : Covers s log) {events : List Event} {s' : Scheduler}
    (hstep : Step s events s') : Covers s' (log ++ events) := by
  cases hstep with
  | request => exact h.request
  | @begin i hi =>
    have hactive := (h.only i _ hi rfl).2
    rw [begin_eq hi, starts_eq_singleton rfl]
    exact h.moveTo .compiling hi rfl rfl rfl rfl hactive
      fun _ => not_hasOpen_started log
  | @endCompile i how hi hreported =>
    obtain ⟨hstarts, hconsumers, hactivity, hcurrent⟩ := endCompile_spec hi hreported
    have hactive := (h.only i _ hi rfl).2
    rw [hstarts, List.append_nil]
    refine h.moveTo .resting hi rfl rfl hconsumers hcurrent (hactivity ▸ hactive) ?_
    intro hrunning
    refine h.not_hasOpen hi rfl nofun ?_
    rw [← hactivity, hrunning]
    nofun
  | @endRest i hi =>
    by_cases hpending : s.activity = .runningWithPending
    · rw [endRest_pending hi hpending, starts_eq_singleton rfl]
      exact h.moveTo .compiling hi rfl rfl rfl rfl nofun
        fun _ => not_hasOpen_started log
    · have hnone : ¬ HasOpen log := h.not_hasOpen hi rfl nofun hpending
      have hstarts : starts s { s.moveTo i .finished with activity := .idle } = [] :=
        starts_eq_nil rfl
      rw [endRest_done hi hpending, hstarts, List.append_nil]
      refine ⟨fun j other hj hother => ?_, fun hactive => absurd rfl hactive, fun _ => hnone, nofun⟩
      have hj' : (s.moveTo i .finished).consumers[j]? = some other := hj
      rw [getElem?_moveTo hi] at hj'
      split_ifs at hj' with hsame
      · cases hj'
        cases hother
      · -- The consumer that finished was the only one with steps to come.
        have hboth := (h.only j other hj' hother).1.symm.trans (h.only i _ hi rfl).1
        exact absurd (Option.some.inj hboth) hsame

end Covers

/-- **Every state of a run** covers its open requests. -/
theorem Reachable.covers {s : Scheduler} {log : List Event} (h : Reachable s log) :
    Covers s log := by
  induction h with
  | new => exact covers_new
  | step _ hstep ih => exact ih.step hstep

/-- **No request is lost.** An idle scheduler has started a compile after every request; and while it
is not idle, a request that no compile was started after is covered, by another compile that is
pending or by a consumer that has yet to start its first. -/
theorem not_open_of_idle_and_covered {s : Scheduler} {log : List Event} (h : Reachable s log) :
    (s.activity = .idle → ¬ HasOpen log) ∧
      (s.activity ≠ .idle → HasOpen log →
        s.activity = .runningWithPending ∨ s.stage? = some .waiting) := by
  have hcovers := h.covers
  refine ⟨hcovers.idle, fun hactive hopen => ?_⟩
  cases hactivity : s.activity with
  | idle => exact absurd hactivity hactive
  | running => exact Or.inr (hcovers.running hactivity hopen)
  | runningWithPending => exact Or.inl rfl

/-- A request during a failing compile and one during the rest after it lead to one more compile,
after which the scheduler is idle. -/
theorem not_open_of_idle_and_covered_failing :
    let failing := ((request {}).begin 0).request
    let resting := (failing.endCompile 0 (.failed (.plain "busy"))).request
    let done := ((resting.endRest 0).endCompile 0 .succeeded).endRest 0
    (Reachable resting [.requested, .started, .requested, .requested] ∧
      HasOpen [.requested, .started, .requested, .requested] ∧
        resting.activity = .runningWithPending) ∧
      Reachable done [.requested, .started, .requested, .requested, .started] ∧
        done.activity = .idle ∧
          ¬ HasOpen [.requested, .started, .requested, .requested, .started] := by
  intro failing resting done
  have hfailing : Reachable failing [.requested, .started, .requested] :=
    ((Reachable.new.step (.request _)).step (.begin (i := 0) rfl)).step (.request _)
  have hresting : Reachable resting [.requested, .started, .requested, .requested] :=
    (hfailing.step (@Step.endCompile _ 0 (.failed (.plain "busy")) rfl nofun)).step (.request _)
  have hdone : Reachable done [.requested, .started, .requested, .requested, .started] :=
    ((hresting.step (.endRest (i := 0) rfl)).step
      (@Step.endCompile _ 0 .succeeded rfl nofun)).step (.endRest (i := 0) rfl)
  have hopen : HasOpen [.requested, .started, .requested, .requested] :=
    ⟨[.requested, .started, .requested], [], rfl, nofun⟩
  have hpending := (not_open_of_idle_and_covered hresting).2 nofun hopen
  refine ⟨⟨hresting, hopen, hpending.resolve_right nofun⟩, hdone, rfl, ?_⟩
  exact (not_open_of_idle_and_covered hdone).1 rfl

end Phrasebook.Scheduler
