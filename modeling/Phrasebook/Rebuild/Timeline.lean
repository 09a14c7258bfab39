import Phrasebook.Number.Decimal
import Phrasebook.Rebuild.Scheduler

/-! # A scheduler in time

The rest after a compile ends when a given time has passed, as far as the clock can tell. Nothing
else takes time: whenever the clock stands still, a consumer that can do its next step has done it.
Others may wait until the scheduler has nothing left to do. -/

namespace Phrasebook

/-- **A scheduler with a clock.** -/
structure Timeline where
  scheduler : Scheduler := {}
  /-- The length of a rest, in seconds. -/
  delay : Number
  /-- The form of the diagnostics of failed compiles. -/
  form : OutputFormat := .rust
  now : Binary64 := .zero false
  /-- The time of the end of the rest. -/
  restEnd : Binary64 := .zero false
  /-- For each who waits until the scheduler has nothing left to do, whether that time has come. -/
  waiters : List Bool := []

namespace Timeline

/-- A number as one of double precision; numbers out of range are infinite. -/
def toSeconds (n : Number) : Binary64 := n.toBinary64?.getD (.infinite n.isNegative)

/-- What the clock can tell apart, in seconds: a nanosecond. -/
def resolution : Binary64 := Binary64.ofDecimal false 1 (-9)

/-- Whether the rest takes no time at all. -/
def hasNoRest (t : Timeline) : Bool := (toSeconds t.delay).le (.zero false)

/-- Whether the rest is over: it takes no time at all, or the clock cannot tell that its end is
still to come. -/
def isRested (t : Timeline) : Bool :=
  t.hasNoRest || !(t.now.add resolution).le t.restEnd

/-- Whether a rest can be measured: it takes no time, or its length is in the range of double
precision. -/
def isMeasurable (t : Timeline) : Bool := t.hasNoRest || t.delay.toBinary64?.isSome

/-- The step that the current consumer can do without any time passing. -/
def step (t : Timeline) : Scheduler :=
  match t.scheduler.current, t.scheduler.stage? with
  | some i, some .waiting => t.scheduler.begin i
  | some i, some .resting =>
    if !t.isMeasurable then t.scheduler.breakRest i
    else if t.isRested then t.scheduler.endRest i
    else t.scheduler
  | _, _ => t.scheduler

/-- **Lets everything happen that takes no time.** -/
def settle (t : Timeline) : Timeline :=
  let scheduler := t.step
  { t with scheduler, waiters := t.waiters.map (· || !scheduler.isBusy) }

/-- Asks for a rebuild. -/
def request (t : Timeline) : Timeline := { t with scheduler := t.scheduler.request }

/-- The compile in flight ends, if there is one. -/
def endCompile (t : Timeline) (how : CompileEnd) : Timeline :=
  match t.scheduler.current, t.scheduler.stage? with
  | some i, some .compiling =>
    { t with
      scheduler := t.scheduler.endCompile i how
      restEnd := t.now.add (toSeconds t.delay) }
  | _, _ => t

/-- The notices of the end of the compile in flight. -/
def endNotices (t : Timeline) (how : CompileEnd) : List Notice :=
  if t.scheduler.stage? = some .compiling then Scheduler.endNotices t.form how else []

/-- The clock moves on. -/
def advance (t : Timeline) (seconds : Number) : Timeline :=
  { t with now := t.now.add (toSeconds seconds) }

/-- Someone waits until the scheduler has nothing left to do. -/
def wait (t : Timeline) : Timeline := { t with waiters := t.waiters ++ [false] }

/-- Closes the scheduler. -/
def close (t : Timeline) : Timeline := { t with scheduler := t.scheduler.close }

end Timeline

end Phrasebook
