import Phrasebook.Proofs.Rebuild.Coverage

/-! # How many compiles

A request is heeded unless it finds another compile pending; nothing comes of the others. The
compiles that were started and those that are due, at most one for a consumer that has yet to begin
and one that is pending, are together as many as the requests that were heeded (`Scheduler.due`,
`Run.due_eq`): a request that is heeded makes one more due, and no step of a consumer changes their
number. So however many requests come before a consumer first looks whether another compile is
pending, two compiles come of them at the most, and exactly so many (`runs_add_eq_heeded`). -/

namespace Phrasebook.Scheduler

/-! ### Runs -/

/-- **A look at the activity** of a scheduler, and what it shows. -/
inductive Look where
  /-- A request decides by it what to do. -/
  | request (found : Activity)
  /-- A consumer decides by it, at the end of its rest, whether to go on. -/
  | check (found : Activity)
deriving DecidableEq

/-- Whether a look is that of a request. -/
def Look.isRequest : Look → Bool
  | request _ => true
  | check _ => false

/-- Whether a look is that of a request that is heeded: it finds nothing pending. -/
def Look.isHeeded : Look → Bool
  | request found => found ≠ .runningWithPending
  | check _ => false

/-- The number of requests. -/
def requests (looks : List Look) : Nat := looks.countP Look.isRequest

/-- The number of requests that are heeded. -/
def heeded (looks : List Look) : Nat := looks.countP Look.isHeeded

/-- **A run from one state to another**, by steps that may be done at any time, and the looks on the
way in order. -/
inductive Run (s : Scheduler) : List Look → Scheduler → Prop where
  | refl : Run s [] s
  | request {looks : List Look} {t : Scheduler} (h : Run s looks t) :
      Run s (looks ++ [.request t.activity]) t.request
  | begin {looks : List Look} {t : Scheduler} (h : Run s looks t) {i : Nat}
      (hi : t.consumers[i]? = some .waiting) : Run s looks (t.begin i)
  | endCompile {looks : List Look} {t : Scheduler} (h : Run s looks t) {i : Nat} {how : CompileEnd}
      (hi : t.consumers[i]? = some .compiling) (hreported : how ≠ .escaped) :
      Run s looks (t.endCompile i how)
  | endRest {looks : List Look} {t : Scheduler} (h : Run s looks t) {i : Nat}
      (hi : t.consumers[i]? = some .resting) :
      Run s (looks ++ [.check t.activity]) (t.endRest i)

/-- **A step of a consumer.** -/
def Works (s t : Scheduler) : Prop := ∃ events, Step s events t ∧ .requested ∉ events

/-- **However its consumers go on**, the scheduler comes to rest: after finitely many steps it is
idle, nothing is left to do, and by then so many compiles were started. -/
inductive Settles (runs : Nat) : Scheduler → Prop where
  | idle {s : Scheduler} (hidle : s.activity = .idle) (hended : ∀ t, ¬ Works s t)
      (hruns : s.runs = runs) : Settles runs s
  | step {s : Scheduler} (hgoes : ∃ t, Works s t) (h : ∀ t, Works s t → Settles runs t) :
      Settles runs s

theorem Run.reachable {s t : Scheduler} {log : List Event} {looks : List Look}
    (hs : Reachable s log) (h : Run s looks t) : ∃ log', Reachable t log' := by
  induction h with
  | refl => exact ⟨log, hs⟩
  | request _ ih =>
    obtain ⟨log', ht⟩ := ih
    exact ⟨_, ht.step (.request _)⟩
  | «begin» _ hi ih =>
    obtain ⟨log', ht⟩ := ih
    exact ⟨_, ht.step (.begin hi)⟩
  | endCompile _ hi hreported ih =>
    obtain ⟨log', ht⟩ := ih
    exact ⟨_, ht.step (.endCompile hi hreported)⟩
  | endRest _ hi ih =>
    obtain ⟨log', ht⟩ := ih
    exact ⟨_, ht.step (.endRest hi)⟩

/-! ### Compiles that are due -/

/-- **The compiles that were started and those that are due.** -/
def due (s : Scheduler) : Nat :=
  s.runs + (if .waiting ∈ s.consumers then 1 else 0) +
    (if s.activity = .runningWithPending then 1 else 0)

section Due
variable {s t : Scheduler} {log : List Event} {i : Nat} {stage : Stage}

theorem Covers.waiting_mem (h : Covers s log) (hi : s.consumers[i]? = some stage)
    (hlive : stage.isLive = true) : .waiting ∈ s.consumers ↔ stage = .waiting := by
  constructor
  · intro hmem
    obtain ⟨j, hj⟩ := List.mem_iff_getElem?.mp hmem
    have hsame : some j = some i := (h.only j _ hj rfl).1.symm.trans (h.only i _ hi hlive).1
    rw [Option.some.inj hsame, hi] at hj
    exact Option.some.inj hj
  · rintro rfl
    exact List.mem_of_getElem? hi

theorem Covers.waiting_not_mem_moveTo (h : Covers s log) (hi : s.consumers[i]? = some stage)
    (hlive : stage.isLive = true) {next : Stage} (hnext : next ≠ .waiting) :
    .waiting ∉ (s.moveTo i next).consumers := by
  intro hmem
  obtain ⟨j, hj⟩ := List.mem_iff_getElem?.mp hmem
  rw [getElem?_moveTo hi] at hj
  split_ifs at hj with hsame
  · exact hnext (Option.some.inj hj)
  · exact hsame (Option.some.inj ((h.only j _ hj rfl).1.symm.trans (h.only i _ hi hlive).1))

theorem Covers.waiting_not_mem_of_idle (h : Covers s log) (hidle : s.activity = .idle) :
    .waiting ∉ s.consumers := by
  intro hmem
  obtain ⟨j, hj⟩ := List.mem_iff_getElem?.mp hmem
  exact (h.only j _ hj rfl).2 hidle

theorem Covers.due_of_idle (h : Covers s log) (hidle : s.activity = .idle) : s.due = s.runs := by
  unfold due
  rw [if_neg (h.waiting_not_mem_of_idle hidle), hidle]
  rfl

/-- **A request that is heeded** makes one more compile due, and others make none. -/
theorem Covers.due_request (h : Covers s log) :
    s.request.due = s.due + if s.activity = .runningWithPending then 0 else 1 := by
  cases hactivity : s.activity with
  | idle =>
    rw [h.due_of_idle hactivity]
    unfold Scheduler.request due
    simp only [hactivity]
    rw [if_pos (List.mem_append_right _ (List.mem_singleton_self _))]
    rfl
  | running =>
    unfold Scheduler.request due
    simp only [hactivity]
    rfl
  | runningWithPending =>
    unfold Scheduler.request
    simp only [hactivity]
    rfl

/-- **A step of a consumer** leaves as many compiles due or started as before. -/
theorem Covers.due_eq_of_works (h : Covers s log) (hstep : Works s t) : t.due = s.due := by
  obtain ⟨events, hstep, hown⟩ := hstep
  cases hstep with
  | request => exact absurd (List.mem_singleton_self _) hown
  | @begin i hi =>
    have hafter : .waiting ∉ (s.startCompile i).consumers :=
      h.waiting_not_mem_moveTo hi rfl nofun
    rw [begin_eq hi]
    unfold due
    rw [if_neg hafter, if_pos ((h.waiting_mem hi rfl).mpr rfl)]
    rfl
  | @endCompile i how hi hreported =>
    obtain ⟨-, hconsumers, hactivity, -⟩ := endCompile_spec hi hreported
    have hafter : .waiting ∉ (s.endCompile i how).consumers :=
      hconsumers ▸ h.waiting_not_mem_moveTo hi rfl nofun
    have hruns : (s.endCompile i how).runs = s.runs := by
      unfold Scheduler.endCompile
      rw [if_pos hi]
      cases how <;> rfl
    unfold due
    rw [if_neg hafter, if_neg (mt (h.waiting_mem hi rfl).mp nofun), hactivity, hruns]
  | @endRest i hi =>
    have hbefore : .waiting ∉ s.consumers := mt (h.waiting_mem hi rfl).mp nofun
    by_cases hpending : s.activity = .runningWithPending
    · have hafter : .waiting ∉ (s.startCompile i).consumers :=
        h.waiting_not_mem_moveTo hi rfl nofun
      rw [endRest_pending hi hpending]
      unfold due
      rw [if_neg hafter, if_neg hbefore, if_pos hpending]
      rfl
    · have hafter : .waiting ∉ (s.moveTo i .finished).consumers :=
        h.waiting_not_mem_moveTo hi rfl nofun
      rw [endRest_done hi hpending]
      unfold due
      rw [if_neg hafter, if_neg hbefore, if_neg hpending]
      rfl

end Due

/-! ### Counting along a run -/

theorem requests_append (looks more : List Look) :
    requests (looks ++ more) = requests looks + requests more := List.countP_append

theorem heeded_append (looks more : List Look) :
    heeded (looks ++ more) = heeded looks + heeded more := List.countP_append

theorem heeded_le_requests (looks : List Look) : heeded looks ≤ requests looks := by
  refine List.countP_mono_left fun look _ hheeded => ?_
  cases look with
  | request found => rfl
  | check found => cases hheeded

section Run
variable {s t : Scheduler} {log : List Event} {looks : List Look} {i : Nat}

theorem works_begin (hi : s.consumers[i]? = some .waiting) : Works s (s.begin i) := by
  refine ⟨_, .begin hi, ?_⟩
  rw [begin_eq hi, starts_eq_singleton rfl]
  nofun

theorem works_endCompile {how : CompileEnd} (hi : s.consumers[i]? = some .compiling)
    (hreported : how ≠ .escaped) : Works s (s.endCompile i how) := by
  refine ⟨_, .endCompile hi hreported, ?_⟩
  rw [(endCompile_spec hi hreported).1]
  nofun

theorem works_endRest (hi : s.consumers[i]? = some .resting) : Works s (s.endRest i) :=
  ⟨_, .endRest hi, fun hmem => nomatch List.eq_of_mem_replicate hmem⟩

/-- **A run** leads to as many more compiles, started or due, as requests are heeded in it. -/
theorem Run.due_eq (hs : Reachable s log) (h : Run s looks t) : t.due = s.due + heeded looks := by
  induction h with
  | refl => rfl
  | @request looks t hrun ih =>
    obtain ⟨log', ht⟩ := hrun.reachable hs
    rw [ht.covers.due_request, ih, heeded_append, Nat.add_assoc]
    cases hactivity : t.activity <;> rfl
  | «begin» hrun hi ih =>
    obtain ⟨log', ht⟩ := hrun.reachable hs
    rw [ht.covers.due_eq_of_works (works_begin hi), ih]
  | endCompile hrun hi hreported ih =>
    obtain ⟨log', ht⟩ := hrun.reachable hs
    rw [ht.covers.due_eq_of_works (works_endCompile hi hreported), ih]
  | endRest hrun hi ih =>
    obtain ⟨log', ht⟩ := hrun.reachable hs
    rw [ht.covers.due_eq_of_works (works_endRest hi), ih, heeded_append]
    rfl

/-- The activity of a scheduler that was idle and has got so many requests since. -/
def activityAfter : Nat → Activity
  | 0 => .idle
  | 1 => .running
  | _ + 2 => .runningWithPending

theorem activity_request (s : Scheduler) : s.request.activity =
    if s.activity = .idle then .running else .runningWithPending := by
  unfold Scheduler.request
  cases hactivity : s.activity with
  | idle => rfl
  | running => rfl
  | runningWithPending => exact hactivity

/-- **Until a consumer checks whether another compile is pending**, the first two requests are
heeded. -/
theorem Run.heeded_eq (hidle : s.activity = .idle) (h : Run s looks t)
    (hunchecked : ∀ found, .check found ∉ looks) :
    t.activity = activityAfter (requests looks) ∧ heeded looks = min (requests looks) 2 := by
  induction h with
  | refl => exact ⟨hidle, rfl⟩
  | @request looks t hrun ih =>
    obtain ⟨hactivity, hheeded⟩ := ih fun found hmem =>
      hunchecked found (List.mem_append_left _ hmem)
    rw [requests_append, heeded_append, hheeded, activity_request, hactivity]
    match requests looks with
    | 0 => exact ⟨rfl, rfl⟩
    | 1 => exact ⟨rfl, rfl⟩
    | n + 2 =>
      have htwo : ∀ m, min (m + 2) 2 = 2 := fun m => Nat.min_eq_right (Nat.le_add_left 2 m)
      exact ⟨rfl, (htwo n).trans (htwo (n + 1)).symm⟩
  | «begin» hrun hi ih =>
    rw [begin_eq hi]
    exact ih hunchecked
  | endCompile hrun hi hreported ih =>
    rw [(endCompile_spec hi hreported).2.2.1]
    exact ih hunchecked
  | endRest hrun hi ih =>
    exact absurd (List.mem_append_right _ (List.mem_singleton_self _)) (hunchecked _)

end Run

/-! ### Coming to rest -/

/-- The steps of a consumer until it is at the end of its rest. -/
def stageSteps : Stage → Nat
  | .waiting => 3
  | .compiling => 2
  | .resting => 1
  | .finished | .failed | .cancelled => 0

/-- How many more steps the consumer of a scheduler will do. -/
def stepsLeft (s : Scheduler) : Nat :=
  (s.stage?.map stageSteps).getD 0 + if s.activity = .runningWithPending then 2 else 0

section Settles
variable {s t : Scheduler} {log : List Event}

/-- **A step of a consumer** leaves fewer steps to do. -/
theorem Covers.stepsLeft_lt_of_works (h : Covers s log) (hstep : Works s t) :
    t.stepsLeft < s.stepsLeft := by
  have hstage : ∀ {i : Nat} {stage next : Stage} {t : Scheduler},
      s.consumers[i]? = some stage → stage.isLive = true →
        t.consumers = (s.moveTo i next).consumers → t.current = s.current →
          s.stage? = some stage ∧ t.stage? = some next := by
    intro i stage next t hi hlive hconsumers hcurrent
    have hi' := (h.only i stage hi hlive).1
    refine ⟨stage?_eq hi' hi, stage?_eq (hcurrent.trans hi') ?_⟩
    rw [hconsumers, getElem?_moveTo hi, if_pos rfl]
  obtain ⟨events, hstep, hown⟩ := hstep
  cases hstep with
  | request => exact absurd (List.mem_singleton_self _) hown
  | @begin i hi =>
    obtain ⟨hs, ht⟩ := hstage (t := s.startCompile i) hi rfl rfl rfl
    rw [begin_eq hi]
    unfold stepsLeft
    rw [hs, ht]
    exact Nat.add_lt_add_right (Nat.lt_succ_self _) _
  | @endCompile i how hi hreported =>
    obtain ⟨-, hconsumers, hactivity, hcurrent⟩ := endCompile_spec hi hreported
    obtain ⟨hs, ht⟩ := hstage hi rfl hconsumers hcurrent
    unfold stepsLeft
    rw [hs, ht, hactivity]
    exact Nat.add_lt_add_right (Nat.lt_succ_self _) _
  | @endRest i hi =>
    by_cases hpending : s.activity = .runningWithPending
    · rw [endRest_pending hi hpending]
      obtain ⟨hs, ht⟩ := hstage (t := { s.startCompile i with activity := .running }) hi rfl rfl rfl
      unfold stepsLeft
      rw [hs, ht, if_pos hpending]
      exact Nat.lt_succ_self 2
    · rw [endRest_done hi hpending]
      obtain ⟨hs, ht⟩ := hstage (t := { s.moveTo i .finished with activity := .idle }) hi rfl rfl rfl
      unfold stepsLeft
      rw [hs, ht, if_neg hpending]
      exact Nat.lt_succ_self 0

theorem Covers.exists_works (h : Covers s log) (hactive : s.activity ≠ .idle) :
    ∃ t, Works s t := by
  obtain ⟨i, stage, -, hi, hlive⟩ := h.busy hactive
  cases stage with
  | waiting => exact ⟨_, works_begin hi⟩
  | compiling => exact ⟨s.endCompile i .succeeded, works_endCompile hi nofun⟩
  | resting => exact ⟨_, works_endRest hi⟩
  | finished => cases hlive
  | failed => cases hlive
  | cancelled => cases hlive

theorem Covers.not_works_of_idle (h : Covers s log) (hidle : s.activity = .idle) :
    ¬ Works s t := by
  rintro ⟨events, hstep, hown⟩
  cases hstep with
  | request => exact hown (List.mem_singleton_self _)
  | «begin» hi => exact (h.only _ _ hi rfl).2 hidle
  | endCompile hi => exact (h.only _ _ hi rfl).2 hidle
  | endRest hi => exact (h.only _ _ hi rfl).2 hidle

/-- **Every state comes to rest**, and by then all compiles that are due were started. -/
theorem Reachable.settles (h : Reachable s log) : Settles s.due s := by
  -- The induction is on the steps left, which every step makes fewer.
  induction hsteps : s.stepsLeft using Nat.strongRecOn generalizing s log with
  | ind steps ih =>
    subst hsteps
    by_cases hidle : s.activity = .idle
    · exact .idle hidle (fun t => h.covers.not_works_of_idle hidle)
        (h.covers.due_of_idle hidle).symm
    · refine .step (h.covers.exists_works hidle) fun t hworks => ?_
      obtain ⟨events, hstep, hown⟩ := hworks
      rw [← h.covers.due_eq_of_works ⟨events, hstep, hown⟩]
      exact ih _ (h.covers.stepsLeft_lt_of_works ⟨events, hstep, hown⟩) (h.step hstep) rfl

end Settles

/-- **The compiles that were started are exactly as many as the requests that were heeded**, less one
for a consumer that has yet to begin and one for a compile that is pending; so they are never more
than the requests. And whatever requests an idle scheduler gets before a consumer first checks
whether another compile is pending, two compiles come of them, or one if there is one request. -/
theorem runs_add_eq_heeded {looks : List Look} {s : Scheduler} (h : Run {} looks s) :
    (s.runs + (if .waiting ∈ s.consumers then 1 else 0) +
        (if s.activity = .runningWithPending then 1 else 0) = heeded looks ∧
      s.runs ≤ requests looks) ∧
    ∀ burst t, s.activity = .idle → Run s burst t → (∀ found, .check found ∉ burst) →
      Settles (s.runs + min (requests burst) 2) t := by
  obtain ⟨log, hs⟩ := h.reachable .new
  have hdue : s.due = heeded looks := (h.due_eq .new).trans (Nat.zero_add _)
  refine ⟨⟨hdue, ?_⟩, fun burst t hidle hburst hunchecked => ?_⟩
  · have hruns : s.runs ≤ s.due := Nat.le_trans (Nat.le_add_right _ _) (Nat.le_add_right _ _)
    exact Nat.le_trans hruns (hdue ▸ heeded_le_requests looks)
  · obtain ⟨log', ht⟩ := hburst.reachable hs
    have hcount : t.due = s.runs + min (requests burst) 2 := by
      rw [hburst.due_eq hs, hs.covers.due_of_idle hidle, (hburst.heeded_eq hidle hunchecked).2]
    exact hcount ▸ ht.settles

/-- Of three requests, the second one during a failing compile and the third one during the rest after
it, two are heeded: one more compile is pending, and in the end two were started. -/
theorem runs_add_eq_heeded_burst :
    let failing := ((request {}).begin 0).request
    let resting := (failing.endCompile 0 (.failed (.plain "busy"))).request
    let looks : List Look := [.request .idle, .request .running, .request .runningWithPending]
    Run {} looks resting ∧ requests looks = 3 ∧ heeded looks = 2 ∧
      (resting.runs + 0 + 1 = heeded looks ∧ resting.runs ≤ requests looks) ∧
        Settles 2 resting := by
  intro failing resting looks
  have hfailing : Run {} [.request .idle, .request .running] failing :=
    (Run.refl.request.begin (i := 0) rfl).request
  have hfailed : Run {} _ (failing.endCompile 0 (.failed (.plain "busy"))) :=
    hfailing.endCompile rfl nofun
  have hrun : Run {} looks resting := hfailed.request
  exact ⟨hrun, rfl, rfl, (runs_add_eq_heeded hrun).1,
    (runs_add_eq_heeded .refl).2 looks resting rfl hrun fun found => by cases found <;> decide⟩

end Phrasebook.Scheduler
