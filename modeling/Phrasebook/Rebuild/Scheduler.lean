import Phrasebook.Diagnostic.Format
import Phrasebook.Diagnostic.Notice

/-! # Coalescing rebuilds

Any number of requests is turned into at most one compile in flight and one more after it. The
scheduler is a machine: requests, the steps of its consumers and the two halves of closing it are
functions on its state, which others may interleave.

A consumer runs compiles one after the other. It first waits to be started; then it compiles and
rests, and compiles again as long as a request came in between. A request creates a consumer only if
the scheduler is idle. -/

namespace Phrasebook

/-- What a scheduler knows of the compile in flight. -/
inductive Activity where
  | idle
  | running
  /-- Another compile follows the one in flight. -/
  | runningWithPending
deriving DecidableEq

/-- The name of an activity. -/
def Activity.name : Activity → Text
  | idle => "idle"
  | running => "running"
  | runningWithPending => "running_with_pending"

/-- What a consumer is doing. -/
inductive Stage where
  /-- It has been created and has not done a step yet. -/
  | waiting
  | compiling
  /-- It pauses after a compile. -/
  | resting
  /-- No request was left. -/
  | finished
  /-- A compile ended in a way that nothing catches, or the rest after it cannot be measured. -/
  | failed
  | cancelled
deriving DecidableEq

/-- Whether a consumer has steps to come. -/
def Stage.isLive : Stage → Bool
  | waiting | compiling | resting => true
  | finished | failed | cancelled => false

/-- How a compile ends. -/
inductive CompileEnd where
  | succeeded
  /-- It failed in a way that is reported. -/
  | failed (complaint : Complaint)
  /-- It failed in a way that nothing catches. -/
  | escaped
deriving DecidableEq

/-- **A scheduler of rebuilds.** Consumers are known by number. -/
structure Scheduler where
  activity : Activity := .idle
  /-- The consumer that runs the compiles, or the last that did, unless the scheduler was closed. -/
  current : Option Nat := none
  /-- The stage of every consumer ever created. -/
  consumers : List Stage := []
  /-- How many compiles were started. -/
  runs : Nat := 0
  /-- How many of them failed in a way that is reported. -/
  failures : Nat := 0
deriving DecidableEq

namespace Scheduler

/-- The stage of the current consumer, if there is one. -/
def stage? (s : Scheduler) : Option Stage := s.current.bind fun i => s.consumers[i]?

/-- Whether the current consumer has steps to come. -/
def isBusy (s : Scheduler) : Bool := s.stage?.any Stage.isLive

/-- The scheduler with a consumer at another stage. -/
def moveTo (s : Scheduler) (i : Nat) (stage : Stage) : Scheduler :=
  { s with consumers := s.consumers.set i stage }

/-! ### Requests -/

/-- **Asks for a rebuild.** -/
def request (s : Scheduler) : Scheduler :=
  match s.activity with
  | .idle =>
    { s with
      activity := .running
      current := some s.consumers.length
      consumers := s.consumers ++ [.waiting] }
  | .running => { s with activity := .runningWithPending }
  | .runningWithPending => s

/-- The notice of a request. -/
def requestNotices (s : Scheduler) : List Notice :=
  if s.activity = .running then [.rebuildQueued] else []

/-! ### Steps of a consumer -/

/-- A consumer starts a compile. -/
def startCompile (s : Scheduler) (i : Nat) : Scheduler :=
  { s.moveTo i .compiling with runs := s.runs + 1 }

/-- The first step of a consumer: it starts a compile. -/
def begin (s : Scheduler) (i : Nat) : Scheduler :=
  if s.consumers[i]? = some .waiting then s.startCompile i else s

/-- The end of the compile of a consumer. It rests, unless the compile failed in a way that nothing
catches. -/
def endCompile (s : Scheduler) (i : Nat) (how : CompileEnd) : Scheduler :=
  if s.consumers[i]? = some .compiling then
    match how with
    | .succeeded => s.moveTo i .resting
    | .failed _ => { s.moveTo i .resting with failures := s.failures + 1 }
    | .escaped => { s.moveTo i .failed with activity := .idle }
  else s

/-- The notice of the end of a compile. -/
def endNotices (form : OutputFormat) : CompileEnd → List Notice
  | .failed complaint => [.rebuildFailed (complaint.format form)]
  | .succeeded | .escaped => []

/-- The end of the rest of a consumer: it compiles again if a request came in between. -/
def endRest (s : Scheduler) (i : Nat) : Scheduler :=
  if s.consumers[i]? = some .resting then
    if s.activity = .runningWithPending then { s.startCompile i with activity := .running }
    else { s.moveTo i .finished with activity := .idle }
  else s

/-- A consumer whose rest cannot be measured fails, as after a compile that ended in a way that
nothing catches. -/
def breakRest (s : Scheduler) (i : Nat) : Scheduler :=
  if s.consumers[i]? = some .resting then { s.moveTo i .failed with activity := .idle } else s

/-! ### Closing -/

/-- The first half of closing: the scheduler lets go of its consumer, which is to be cancelled and
awaited if it has steps to come. -/
def beginClose (s : Scheduler) : Scheduler × Option Nat :=
  ({ s with current := none }, if s.isBusy then s.current else none)

/-- The last step of a cancelled consumer. If it had begun, the scheduler is idle after it. -/
def unwind (s : Scheduler) (i : Nat) : Scheduler :=
  match s.consumers[i]? with
  | some .waiting => s.moveTo i .cancelled
  | some .compiling | some .resting => { s.moveTo i .cancelled with activity := .idle }
  | _ => s

/-- The second half of closing, after the cancelled consumer has ended. -/
def endClose (s : Scheduler) : Scheduler := { s with activity := .idle }

/-- **Closes the scheduler** while nothing else happens. -/
def close (s : Scheduler) : Scheduler :=
  match s.beginClose with
  | (s, some i) => (s.unwind i).endClose
  | (s, none) => s.endClose

end Scheduler

end Phrasebook
