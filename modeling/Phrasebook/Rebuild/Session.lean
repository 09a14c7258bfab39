import Phrasebook.Compile.Pass
import Phrasebook.Rebuild.Poller
import Phrasebook.Rebuild.Timeline

/-! # Rebuilding on every change

A session watches the directory of the documents: it compiles once, and again whenever a document
has changed. It is driven from outside by three events: a compile that is in flight runs to its end,
the directory is looked at, and time passes. -/

namespace Phrasebook

/-- **A session of rebuilding.** -/
structure Session where
  selfNames : Locale.SelfNames
  options : Options
  poller : Poller
  timeline : Timeline

namespace Session

variable {m : Type → Type} [Monad m] [Host m]

/-- Asks for a rebuild. -/
def request (s : Session) : m Session := do
  Host.tellAll s.timeline.scheduler.requestNotices
  return { s with timeline := s.timeline.request }

/-- **Starts a session**: from now on changes are seen, and a first compile is asked for. -/
def start (selfNames : Locale.SelfNames) (options : Options) (form : OutputFormat) :
    ExceptT Crash m Session := do
  let directory ← ExceptT.mk (pure (options.languageDirectory.orFault Crash.blankPath))
  let poller ← Poller.start (.ofText directory)
  let timeline : Timeline := { delay := options.debounce, form }
  let s ← ExceptT.lift (request ⟨selfNames, options, poller, timeline⟩)
  ExceptT.lift (Host.tell (.watching directory))
  return { s with timeline := s.timeline.settle }

/-- How a compile ends that ended with the given outcome. -/
def compileEnd {α : Type} : Except Fault α → CompileEnd
  | .ok _ => .succeeded
  | .error (.problem p) => .failed (.diagnostic p.diagnostic)
  | .error (.crash _) => .escaped

/-- **Runs the compile in flight**, if there is one. -/
def compile (s : Session) : m Session := do
  if s.timeline.scheduler.stage? = some .compiling then
    let outcome ← (Compile.run s.selfNames s.options).run
    let how := compileEnd outcome
    Host.tellAll (s.timeline.endNotices how)
    return { s with timeline := (s.timeline.endCompile how).settle }
  else return s

/-- Tells of changes, and asks for a rebuild after each. -/
def notice (s : Session) : List FileChange → m Session
  | [] => return s
  | event :: rest => do
    Host.tell (.fileChanged event.kind event.path.name)
    let s ← request s
    notice s rest

/-- **Looks at the directory** and asks for rebuilds for what has changed. -/
def poll (s : Session) : ExceptT Crash m Session := do
  let (events, poller) ← s.poller.poll
  let s ← ExceptT.lift (notice { s with poller } events)
  return { s with timeline := s.timeline.settle }

/-- Time passes. -/
def advance (s : Session) (seconds : Number) : Session :=
  { s with timeline := (s.timeline.advance seconds).settle }

/-- **Follows changes** that are known beforehand. The compile in flight runs to its end before a
change is made; the change is then seen, and the rest before the next compile passes. -/
def follow (s : Session) : List (m Unit) → ExceptT Crash m Session
  | [] => ExceptT.lift s.compile
  | change :: rest => do
    let compiled ← ExceptT.lift s.compile
    let before ← compiled.poll
    ExceptT.lift change
    let changed ← before.poll
    follow (changed.advance s.options.debounce) rest

/-- The scheduler of a session that ends after a last rest. -/
def finish (s : Session) : Scheduler := (s.advance s.options.debounce).timeline.close.scheduler

end Session

end Phrasebook
