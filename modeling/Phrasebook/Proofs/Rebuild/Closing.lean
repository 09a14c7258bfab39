import Phrasebook.Proofs.Rebuild.Coverage

/-! # One compile at a time

Closing a scheduler takes two halves: the first lets go of the consumer and cancels it, the second,
after the cancelled consumer has ended, makes the scheduler idle. Requests, consumers and other
closes may do steps in between (`Closing`, `perform?`).

A run is orderly if no request finds the scheduler idle while a close is under way. The orderly runs
are exactly those in which compiles are serialised, however the closes under way end
(`orderly_iff_serialised`). A request that comes too early creates a consumer which the second half
of the close takes no notice of, and the next request creates another one beside it
(`overlapping_compiles`). -/

namespace Phrasebook

/-- Whether a consumer has steps to come. -/
def Scheduler.isLive (s : Scheduler) (i : Nat) : Bool := s.consumers[i]?.any Stage.isLive

/-- **A scheduler with the closes under way**: for each of them, the consumer that it has cancelled
and waits for. -/
structure Closing where
  scheduler : Scheduler := {}
  awaited : List Nat := []
deriving DecidableEq

namespace Closing

/-! ### Runs -/

/-- What may happen to a scheduler. -/
inductive Action where
  | request
  /-- The first step of a consumer. -/
  | begin (i : Nat)
  | endCompile (i : Nat) (how : CompileEnd)
  | endRest (i : Nat)
  /-- The rest of a consumer cannot be measured. -/
  | breakRest (i : Nat)
  /-- The first half of a close, and the second too if there is nothing to wait for. -/
  | close
  /-- The last step of a cancelled consumer. -/
  | unwind (i : Nat)
  /-- The second half of a close that has waited for a consumer. -/
  | endClose (i : Nat)
deriving DecidableEq

/-- **What an action leads to**, if it is possible. A consumer that is cancelled before its first step
never does it; one that has begun may go on, since its compile may catch the cancellation. -/
def perform? (c : Closing) : Action → Option Closing
  | .request => some { c with scheduler := c.scheduler.request }
  | .begin i =>
    if c.scheduler.consumers[i]? = some .waiting ∧ i ∉ c.awaited then
      some { c with scheduler := c.scheduler.begin i }
    else none
  | .endCompile i how =>
    if c.scheduler.consumers[i]? = some .compiling then
      some { c with scheduler := c.scheduler.endCompile i how }
    else none
  | .endRest i =>
    if c.scheduler.consumers[i]? = some .resting then
      some { c with scheduler := c.scheduler.endRest i }
    else none
  | .breakRest i =>
    if c.scheduler.consumers[i]? = some .resting then
      some { c with scheduler := c.scheduler.breakRest i }
    else none
  | .close =>
    match c.scheduler.beginClose with
    | (s, some i) => some ⟨s, i :: c.awaited⟩
    | (s, none) => some { c with scheduler := s.endClose }
  | .unwind i =>
    if i ∈ c.awaited ∧ c.scheduler.isLive i = true then
      some { c with scheduler := c.scheduler.unwind i }
    else none
  | .endClose i =>
    if i ∈ c.awaited ∧ c.scheduler.isLive i = false then
      some ⟨c.scheduler.endClose, c.awaited.erase i⟩
    else none

/-- What actions one after the other lead to, if each is possible. -/
def run? (c : Closing) : List Action → Option Closing
  | [] => some c
  | action :: rest => (c.perform? action).bind fun next => next.run? rest

/-- Whether an action only brings closes to their end. -/
def Action.isClosing : Action → Bool
  | unwind _ | endClose _ => true
  | _ => false

/-- An action is no request that finds the scheduler idle while a close is under way. -/
def Admits (c : Closing) (action : Action) : Prop :=
  action = .request → c.awaited = [] ∨ c.scheduler.activity ≠ .idle

instance (c : Closing) (action : Action) : Decidable (c.Admits action) :=
  inferInstanceAs (Decidable (action = .request → c.awaited = [] ∨ c.scheduler.activity ≠ .idle))

/-- **No request of a run finds the scheduler idle while a close is under way.** -/
def Orderly (c : Closing) : List Action → Prop
  | [] => True
  | action :: rest => c.Admits action ∧ ∀ next ∈ c.perform? action, next.Orderly rest

/-- **Compiles are serialised**: at most one consumer has steps to come, so at most one compile is in
flight; and unless a close is under way, the scheduler is idle just if no consumer has. -/
structure Serialised (c : Closing) : Prop where
  only : ∀ i j, c.scheduler.isLive i = true → c.scheduler.isLive j = true → i = j
  idle : c.awaited = [] → (c.scheduler.activity = .idle ↔ ∀ i, c.scheduler.isLive i = false)

/-- Actions that only bring closes to their end are orderly. -/
theorem orderly_of_closing {c : Closing} {ends : List Action}
    (h : ∀ action ∈ ends, action.isClosing = true) : c.Orderly ends := by
  induction ends generalizing c with
  | nil => trivial
  | cons action rest ih =>
    obtain ⟨hfirst, hrest⟩ := List.forall_mem_cons.mp h
    refine ⟨fun hrequest => ?_, fun next _ => ih hrest⟩
    rw [hrequest] at hfirst
    cases hfirst

theorem Orderly.append {c : Closing} {actions more : List Action} (h : c.Orderly actions)
    (hmore : ∀ next ∈ c.run? actions, next.Orderly more) : c.Orderly (actions ++ more) := by
  induction actions generalizing c with
  | nil => exact hmore c rfl
  | cons action rest ih =>
    refine ⟨h.1, fun next hnext => ih (h.2 next hnext) fun last hlast => hmore last ?_⟩
    rw [run?, Option.mem_def.mp hnext]
    exact hlast

theorem Orderly.of_append {c : Closing} {actions more : List Action}
    (h : c.Orderly (actions ++ more)) : c.Orderly actions := by
  induction actions generalizing c with
  | nil => trivial
  | cons action rest ih => exact ⟨h.1, fun next hnext => ih (h.2 next hnext)⟩

/-! ### Steps of consumers -/

section Consumer
variable {s s' : Scheduler} {i j : Nat} {stage next : Stage}

theorem isLive_eq (h : s.consumers[i]? = some stage) : s.isLive i = stage.isLive := by
  unfold Scheduler.isLive
  rw [h, Option.any_some]

theorem isLive_eq_true : s.isLive i = true ↔
    ∃ stage, s.consumers[i]? = some stage ∧ stage.isLive = true := by
  unfold Scheduler.isLive
  rw [Option.any_eq_true]

/-- **A step of a consumer** takes it to another stage and leaves the others where they are. -/
structure Moves (s : Scheduler) (i : Nat) (next : Stage) (s' : Scheduler) : Prop where
  live : s.isLive i = true
  consumers : s'.consumers = (s.moveTo i next).consumers
  current : s'.current = s.current

theorem Moves.isLive (h : Moves s i next s') (j : Nat) :
    s'.isLive j = if j = i then next.isLive else s.isLive j := by
  obtain ⟨stage, hi, -⟩ := isLive_eq_true.mp h.live
  unfold Scheduler.isLive
  rw [h.consumers, Scheduler.getElem?_moveTo hi]
  split_ifs
  · rfl
  · rfl

theorem Moves.length (h : Moves s i next s') : s'.consumers.length = s.consumers.length := by
  rw [h.consumers]
  exact List.length_set

/-- Who has steps to come after a step had some before. -/
theorem Moves.of_isLive (h : Moves s i next s') (hj : s'.isLive j = true) : s.isLive j = true := by
  rw [h.isLive] at hj
  split_ifs at hj with hsame
  · rw [hsame]
    exact h.live
  · exact hj

/-- **A consumer that is not cancelled** keeps the scheduler busy while it goes on, and leaves it
idle when it ends. -/
structure Proceeds (s : Scheduler) (i : Nat) (next : Stage) (s' : Scheduler) : Prop
    extends Moves s i next s' where
  busy : next.isLive = true → s.activity ≠ .idle → s'.activity ≠ .idle
  idle : next.isLive = false → s'.activity = .idle

theorem proceeds_begin (h : s.consumers[i]? = some .waiting) :
    Proceeds s i .compiling (s.begin i) := by
  rw [Scheduler.begin_eq h]
  exact ⟨⟨isLive_eq h, rfl, rfl⟩, fun _ hactive => hactive, nofun⟩

theorem exists_proceeds_endCompile (h : s.consumers[i]? = some .compiling) (how : CompileEnd) :
    ∃ next, Proceeds s i next (s.endCompile i how) := by
  unfold Scheduler.endCompile
  rw [if_pos h]
  cases how with
  | succeeded => exact ⟨.resting, ⟨isLive_eq h, rfl, rfl⟩, fun _ hactive => hactive, nofun⟩
  | failed complaint => exact ⟨.resting, ⟨isLive_eq h, rfl, rfl⟩, fun _ hactive => hactive, nofun⟩
  | escaped => exact ⟨.failed, ⟨isLive_eq h, rfl, rfl⟩, nofun, fun _ => rfl⟩

theorem exists_proceeds_endRest (h : s.consumers[i]? = some .resting) :
    ∃ next, Proceeds s i next (s.endRest i) := by
  by_cases hpending : s.activity = .runningWithPending
  · rw [Scheduler.endRest_pending h hpending]
    exact ⟨.compiling, ⟨isLive_eq h, rfl, rfl⟩, nofun, nofun⟩
  · rw [Scheduler.endRest_done h hpending]
    exact ⟨.finished, ⟨isLive_eq h, rfl, rfl⟩, nofun, fun _ => rfl⟩

theorem proceeds_breakRest (h : s.consumers[i]? = some .resting) :
    Proceeds s i .failed (s.breakRest i) := by
  unfold Scheduler.breakRest
  rw [if_pos h]
  exact ⟨⟨isLive_eq h, rfl, rfl⟩, nofun, fun _ => rfl⟩

/-- A cancelled consumer ends with its next step. Only if it had begun does it leave the scheduler
idle. -/
theorem moves_unwind (h : s.isLive i = true) : Moves s i .cancelled (s.unwind i) := by
  obtain ⟨stage, hi, hlive⟩ := isLive_eq_true.mp h
  unfold Scheduler.unwind
  rw [hi]
  cases stage with
  | waiting => exact ⟨h, rfl, rfl⟩
  | compiling => exact ⟨h, rfl, rfl⟩
  | resting => exact ⟨h, rfl, rfl⟩
  | finished => cases hlive
  | failed => cases hlive
  | cancelled => cases hlive

end Consumer

/-- **What an action can do.** -/
inductive Outcome (c : Closing) : Action → Closing → Prop where
  | request : Outcome c .request { c with scheduler := c.scheduler.request }
  /-- A step of a consumer as if nothing were under way. -/
  | proceed {action : Action} {i : Nat} {next : Stage} {s : Scheduler} (hne : action ≠ .request)
      (h : Proceeds c.scheduler i next s) : Outcome c action { c with scheduler := s }
  /-- The first half of a close that has to wait. -/
  | beginClose {i : Nat} (hcurrent : c.scheduler.current = some i)
      (hlive : c.scheduler.isLive i = true) :
      Outcome c .close ⟨{ c.scheduler with current := none }, i :: c.awaited⟩
  /-- Both halves of a close that has nothing to wait for. -/
  | closeAtOnce (h : ∀ i, c.scheduler.current = some i → c.scheduler.isLive i = false) :
      Outcome c .close { c with scheduler := { c.scheduler with current := none, activity := .idle } }
  | unwind {i : Nat} {s : Scheduler} (hi : i ∈ c.awaited)
      (h : Moves c.scheduler i .cancelled s) : Outcome c (.unwind i) { c with scheduler := s }
  | endClose {i : Nat} (hi : i ∈ c.awaited) (hended : c.scheduler.isLive i = false) :
      Outcome c (.endClose i) ⟨c.scheduler.endClose, c.awaited.erase i⟩

theorem isBusy_eq (s : Scheduler) : s.isBusy = s.current.any s.isLive := by
  unfold Scheduler.isBusy Scheduler.stage?
  cases s.current with
  | none => rfl
  | some i => rfl

theorem outcome_close {c d : Closing} (h : c.perform? .close = some d) : c.Outcome .close d := by
  unfold perform? Scheduler.beginClose at h
  cases hbusy : c.scheduler.isBusy with
  | true =>
    have hlive := hbusy
    rw [isBusy_eq, Option.any_eq_true] at hlive
    obtain ⟨i, hcurrent, hlive⟩ := hlive
    simp only [hbusy, hcurrent, if_true, Option.some.injEq] at h
    subst h
    exact .beginClose hcurrent hlive
  | false =>
    have hended := hbusy
    rw [isBusy_eq, Option.any_eq_false] at hended
    simp only [hbusy, Bool.false_eq_true, if_false, Option.some.injEq] at h
    subst h
    exact .closeAtOnce hended

theorem outcome_of_perform? {c d : Closing} {action : Action} (h : c.perform? action = some d) :
    c.Outcome action d := by
  cases action with
  | request =>
    cases h
    exact .request
  | «begin» i =>
    obtain ⟨⟨hi, -⟩, h⟩ := Option.ite_none_right_eq_some.mp h
    cases h
    exact .proceed nofun (proceeds_begin hi)
  | endCompile i how =>
    obtain ⟨hi, h⟩ := Option.ite_none_right_eq_some.mp h
    cases h
    obtain ⟨next, hnext⟩ := exists_proceeds_endCompile hi how
    exact .proceed nofun hnext
  | endRest i =>
    obtain ⟨hi, h⟩ := Option.ite_none_right_eq_some.mp h
    cases h
    obtain ⟨next, hnext⟩ := exists_proceeds_endRest hi
    exact .proceed nofun hnext
  | breakRest i =>
    obtain ⟨hi, h⟩ := Option.ite_none_right_eq_some.mp h
    cases h
    exact .proceed nofun (proceeds_breakRest hi)
  | close => exact outcome_close h
  | unwind i =>
    obtain ⟨⟨hi, hlive⟩, h⟩ := Option.ite_none_right_eq_some.mp h
    cases h
    exact .unwind hi (moves_unwind hlive)
  | endClose i =>
    obtain ⟨⟨hi, hended⟩, h⟩ := Option.ite_none_right_eq_some.mp h
    cases h
    exact .endClose hi hended

/-! ### The invariant -/

/-- **A scheduler that no close is about to end**: the consumer with steps to come is the current one,
and there is one just if the scheduler is not idle. -/
structure Steady (s : Scheduler) : Prop where
  current : ∀ i, s.isLive i = true → s.current = some i ∧ s.activity ≠ .idle
  busy : s.activity ≠ .idle → ∃ i, s.current = some i ∧ s.isLive i = true

/-- **What an orderly run keeps.** While a close is under way, only the consumer that it waits for may
have steps to come, and there is no current one; no second close has to wait then. -/
inductive Exclusive : Closing → Prop where
  | steady {s : Scheduler} (h : Steady s) : Exclusive ⟨s, []⟩
  | closing {s : Scheduler} {i : Nat} (hcurrent : s.current = none) (hi : i < s.consumers.length)
      (honly : ∀ j, s.isLive j = true → j = i) : Exclusive ⟨s, [i]⟩

section Scheduler
variable {s s' : Scheduler} {i : Nat} {next : Stage}

theorem lt_of_isLive (h : s.isLive i = true) : i < s.consumers.length := by
  obtain ⟨stage, hi, -⟩ := isLive_eq_true.mp h
  exact (List.getElem?_eq_some_iff.mp hi).1

theorem isLive_request_of_idle (h : s.activity = .idle) (j : Nat) :
    s.request.isLive j = if j = s.consumers.length then true else s.isLive j := by
  unfold Scheduler.request Scheduler.isLive
  rw [h]
  rcases Nat.lt_trichotomy j s.consumers.length with hlt | rfl | hgt
  · rw [if_neg (Nat.ne_of_lt hlt), List.getElem?_append_left hlt]
  · rw [if_pos rfl, List.getElem?_concat_length]
    rfl
  · rw [if_neg (Nat.ne_of_gt hgt), List.getElem?_eq_none (by simpa [Nat.succ_le_iff] using hgt),
      List.getElem?_eq_none (Nat.le_of_lt hgt)]

theorem consumers_request (h : s.activity ≠ .idle) :
    s.request.consumers = s.consumers ∧ s.request.current = s.current ∧
      s.request.activity ≠ .idle := by
  unfold Scheduler.request
  cases hactivity : s.activity with
  | idle => exact absurd hactivity h
  | running => exact ⟨rfl, rfl, nofun⟩
  | runningWithPending => exact ⟨rfl, rfl, h⟩

theorem isLive_request_of_busy (h : s.activity ≠ .idle) (j : Nat) :
    s.request.isLive j = s.isLive j := by
  unfold Scheduler.isLive
  rw [(consumers_request h).1]

theorem steady_of_ended (h : ∀ j, s.isLive j = false) (hidle : s.activity = .idle) : Steady s where
  current j hj := by
    rw [h j] at hj
    cases hj
  busy hactive := absurd hidle hactive

theorem Steady.request (h : Steady s) : Steady s.request := by
  by_cases hidle : s.activity = .idle
  · -- All consumers have ended, and a new one waits to begin.
    have hrequest : s.request.current = some s.consumers.length ∧ s.request.activity = .running := by
      unfold Scheduler.request
      rw [hidle]
      exact ⟨rfl, rfl⟩
    have hactive : s.request.activity ≠ .idle := by
      rw [hrequest.2]
      nofun
    refine ⟨fun j hj => ⟨?_, hactive⟩, fun _ => ⟨_, hrequest.1, ?_⟩⟩
    · rw [isLive_request_of_idle hidle] at hj
      split_ifs at hj with hsame
      · rw [hrequest.1, hsame]
      · exact absurd hidle (h.current j hj).2
    · rw [isLive_request_of_idle hidle, if_pos rfl]
  · obtain ⟨-, hcurrent, hactive⟩ := consumers_request hidle
    refine ⟨fun j hj => ⟨?_, hactive⟩, fun _ => ?_⟩
    · rw [isLive_request_of_busy hidle] at hj
      rw [hcurrent, (h.current j hj).1]
    · obtain ⟨j, hj, hlive⟩ := h.busy hidle
      exact ⟨j, hcurrent.trans hj, by rw [isLive_request_of_busy hidle, hlive]⟩

theorem Steady.proceed (h : Steady s) (hnext : Proceeds s i next s') : Steady s' := by
  obtain ⟨hi, hactive⟩ := h.current i hnext.live
  have hcurrent : s'.current = some i := hnext.current.trans hi
  have honly : ∀ j, s'.isLive j = true → j = i := fun j hj =>
    Option.some.inj ((h.current j (hnext.of_isLive hj)).1.symm.trans hi)
  cases hlive : next.isLive with
  | true =>
    refine ⟨fun j hj => ⟨?_, hnext.busy hlive hactive⟩, fun _ => ⟨i, hcurrent, ?_⟩⟩
    · rw [honly j hj, hcurrent]
    · rw [hnext.isLive, if_pos rfl, hlive]
  | false =>
    refine steady_of_ended (fun j => ?_) (hnext.idle hlive)
    rw [hnext.isLive]
    split_ifs with hsame
    · exact hlive
    · exact Bool.eq_false_iff.mpr fun hj =>
        hsame (Option.some.inj ((h.current j hj).1.symm.trans hi))

end Scheduler

theorem exclusive_new : Exclusive {} := .steady (steady_of_ended (fun _ => rfl) rfl)

section Step
variable {c d : Closing} {action : Action}

theorem Exclusive.serialised (h : c.Exclusive) : c.Serialised := by
  cases h with
  | @steady s h =>
    refine ⟨fun i j hi hj => ?_, fun _ => ⟨fun hidle i => ?_, fun hended => ?_⟩⟩
    · exact Option.some.inj ((h.current i hi).1.symm.trans (h.current j hj).1)
    · exact Bool.eq_false_iff.mpr fun hi => (h.current i hi).2 hidle
    · by_contra hactive
      obtain ⟨i, -, hi⟩ := h.busy hactive
      rw [hended i] at hi
      cases hi
  | closing hcurrent hi honly =>
    exact ⟨fun i j hi hj => (honly i hi).trans (honly j hj).symm, nofun⟩

/-- **An orderly action** keeps the invariant. -/
theorem Exclusive.step (h : c.Exclusive) (hadmits : c.Admits action)
    (hstep : c.Outcome action d) : d.Exclusive := by
  cases h with
  | @steady s h =>
    cases hstep with
    | request => exact .steady h.request
    | proceed _ hnext => exact .steady (h.proceed hnext)
    | beginClose hcurrent hlive =>
      refine .closing rfl (lt_of_isLive hlive) fun j hj => ?_
      exact Option.some.inj ((h.current j hj).1.symm.trans hcurrent)
    | closeAtOnce hended =>
      refine .steady (steady_of_ended (fun j => ?_) rfl)
      exact Bool.eq_false_iff.mpr fun hj =>
        Bool.eq_false_iff.mp (hended j (h.current j hj).1) hj
    | unwind hi _ => cases hi
    | endClose hi _ => cases hi
  | @closing s i hcurrent hi honly =>
    cases hstep with
    | request =>
      have hactive : s.activity ≠ .idle := (hadmits rfl).resolve_left nofun
      obtain ⟨hconsumers, hkept, -⟩ := consumers_request hactive
      refine .closing (hkept.trans hcurrent) (hconsumers ▸ hi) fun j hj => honly j ?_
      rwa [isLive_request_of_busy hactive] at hj
    | proceed _ hnext =>
      exact .closing (hnext.current.trans hcurrent) (hnext.length ▸ hi)
        fun j hj => honly j (hnext.of_isLive hj)
    | beginClose hsome _ =>
      rw [hcurrent] at hsome
      cases hsome
    | closeAtOnce _ => exact .closing rfl hi honly
    | unwind _ hnext =>
      exact .closing (hnext.current.trans hcurrent) (hnext.length ▸ hi)
        fun j hj => honly j (hnext.of_isLive hj)
    | @endClose k hk hended =>
      obtain rfl := List.mem_singleton.mp hk
      rw [List.erase_cons_head]
      refine .steady (steady_of_ended (fun j => ?_) rfl)
      exact Bool.eq_false_iff.mpr fun hj => Bool.eq_false_iff.mp hended (honly j hj ▸ hj)

/-- **An orderly run** keeps the invariant. -/
theorem Exclusive.run {actions : List Action} (h : c.Exclusive) (horderly : c.Orderly actions)
    (hrun : c.run? actions = some d) : d.Exclusive := by
  induction actions generalizing c with
  | nil =>
    cases hrun
    exact h
  | cons action rest ih =>
    obtain ⟨next, hnext, hrest⟩ := Option.bind_eq_some_iff.mp hrun
    exact ih (h.step horderly.1 (outcome_of_perform? hnext)) (horderly.2 next hnext) hrest

/-- The end of a close that takes no notice of a consumer with steps to come. -/
theorem not_serialised_endClose {s : Scheduler} {i j : Nat} (hi : s.isLive i = false)
    (hj : s.isLive j = true) :
    ∃ d, perform? ⟨s, [i]⟩ (.endClose i) = some d ∧ ¬ d.Serialised := by
  refine ⟨⟨s.endClose, []⟩, ?_, fun h => ?_⟩
  · have hend : perform? ⟨s, [i]⟩ (.endClose i) = some ⟨s.endClose, [i].erase i⟩ :=
      if_pos ⟨List.mem_singleton_self i, hi⟩
    rw [hend, List.erase_cons_head]
  · have hended : s.isLive j = false := (h.idle rfl).mp rfl j
    rw [hj] at hended
    cases hended

/-- **A request that comes too early** leads to a state that is not serialised, once the close under
way has ended: the scheduler is idle then, but the consumer of the request has steps to come. -/
theorem Exclusive.exists_not_serialised (h : c.Exclusive) (hopen : c.awaited ≠ [])
    (hidle : c.scheduler.activity = .idle) :
    ∃ ends : List Action, (∀ action ∈ ends, action.isClosing = true) ∧
      ∃ d, c.run? (.request :: ends) = some d ∧ ¬ d.Serialised := by
  cases h with
  | steady h => exact absurd rfl hopen
  | @closing s i hcurrent hi honly =>
    have hother : s.consumers.length ≠ i := Nat.ne_of_gt hi
    have hnew : s.request.isLive s.consumers.length = true := by
      rw [isLive_request_of_idle hidle, if_pos rfl]
    cases hlive : s.request.isLive i with
    | true =>
      -- The consumer that is waited for has to end first.
      have hunwind := moves_unwind hlive
      have hended : (s.request.unwind i).isLive i = false := by
        rw [hunwind.isLive, if_pos rfl]
        rfl
      have hkept : (s.request.unwind i).isLive s.consumers.length = true := by
        rw [hunwind.isLive, if_neg hother, hnew]
      obtain ⟨d, hd, hnot⟩ := not_serialised_endClose hended hkept
      have hfirst : perform? ⟨s.request, [i]⟩ (.unwind i) = some ⟨s.request.unwind i, [i]⟩ :=
        if_pos ⟨List.mem_singleton_self i, hlive⟩
      refine ⟨[.unwind i, .endClose i], by simp [Action.isClosing], d, ?_, hnot⟩
      show (perform? ⟨s.request, [i]⟩ (.unwind i)).bind (fun next => next.run? [.endClose i]) = some d
      rw [hfirst, Option.bind_some, run?, hd]
      rfl
    | false =>
      obtain ⟨d, hd, hnot⟩ := not_serialised_endClose hlive hnew
      refine ⟨[.endClose i], by simp [Action.isClosing], d, ?_, hnot⟩
      show (perform? ⟨s.request, [i]⟩ (.endClose i)).bind (fun next => next.run? []) = some d
      rw [hd]
      rfl

/-- A run that stays serialised however its closes end is orderly. -/
theorem Exclusive.orderly {actions : List Action} (h : c.Exclusive)
    (hserialised : ∀ done ends : List Action, ∀ d, done <+: actions →
      (∀ action ∈ ends, action.isClosing = true) → c.run? (done ++ ends) = some d →
        d.Serialised) : c.Orderly actions := by
  induction actions generalizing c with
  | nil => trivial
  | cons action rest ih =>
    have hadmits : c.Admits action := by
      rintro rfl
      by_contra hearly
      rw [not_or, not_not] at hearly
      obtain ⟨ends, hends, d, hd, hnot⟩ := h.exists_not_serialised hearly.1 hearly.2
      exact hnot (hserialised [.request] ends d (List.prefix_append _ _) hends hd)
    refine ⟨hadmits, fun next hnext => ?_⟩
    refine ih (h.step hadmits (outcome_of_perform? hnext)) fun done ends d hdone hends hd => ?_
    refine hserialised (action :: done) ends d (List.cons_prefix_cons.mpr ⟨rfl, hdone⟩) hends ?_
    rw [List.cons_append, run?, Option.mem_def.mp hnext]
    exact hd

end Step

/-- **The orderly runs are those in which compiles are serialised**, after each of their actions and
however the closes under way then end. -/
theorem orderly_iff_serialised (actions : List Action) :
    Orderly {} actions ↔
      ∀ done ends : List Action, ∀ c, done <+: actions →
        (∀ action ∈ ends, action.isClosing = true) → run? {} (done ++ ends) = some c →
          c.Serialised := by
  refine ⟨fun horderly done ends c hdone hends hrun => ?_, exclusive_new.orderly⟩
  obtain ⟨rest, rfl⟩ := hdone
  have hboth := horderly.of_append.append fun _ _ => orderly_of_closing hends
  exact (exclusive_new.run hboth hrun).serialised

/-- A request between the end of a cancelled consumer and the second half of the close that waits for
it: its compile and that of the next request are in flight together. -/
theorem overlapping_compiles :
    ∃ idle both : Closing,
      run? {} [.request, .begin 0, .close, .unwind 0, .request, .endClose 0] = some idle ∧
      (idle.awaited = [] ∧ idle.scheduler.activity = .idle ∧ idle.scheduler.isLive 1 = true) ∧
      run? idle [.begin 1, .request, .begin 2] = some both ∧
      both.scheduler.consumers = [.cancelled, .compiling, .compiling] ∧ ¬ both.Serialised := by
  refine ⟨_, _, rfl, ⟨rfl, rfl, rfl⟩, rfl, rfl, fun h => ?_⟩
  exact absurd (h.only 1 2 rfl rfl) (by decide)

end Closing

end Phrasebook
