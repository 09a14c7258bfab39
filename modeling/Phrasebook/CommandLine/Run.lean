import Phrasebook.CommandLine.Arguments
import Phrasebook.Rebuild.Session
import Phrasebook.Settings.Configuration

/-! # Running the command line

The options of a run come from a configuration file, the one given or the nearest, and from flags,
which win. A run ends with a status: zero if it succeeds, one if it fails with a diagnostic, two if
the arguments are wrong. -/

namespace Phrasebook.CommandLine

/-- **How a run ends.** -/
structure Ending where
  /-- The exit status. -/
  status : Nat
  /-- The formatted diagnostic, if there is one. -/
  printed : Option Text := none
deriving DecidableEq

variable {m : Type → Type} [Monad m] [Host m]

/-- The configuration file of a run: the one given, unless its path is empty, or the nearest. -/
def configuration? (a : Arguments) : m (Option DiskPath) :=
  match a.config with
  | none | some [] => Configuration.find? {}
  | some path => return some (.ofText path)

/-- **The options of a run.** -/
def optionsOf (a : Arguments) : ExceptT Fault m Options := do
  let file? ← ExceptT.lift (configuration? a)
  let configured ← match file? with
    | some path => Configuration.load path
    | none => pure {}
  ExceptT.mk (pure (configured.overriddenBy a.draft).toOptions)

/-- The end of a run that succeeds or fails. -/
def conclude {α : Type} (form : OutputFormat) : Except Fault α → Except Crash Ending
  | .ok _ => .ok { status := 0 }
  | .error (.problem p) => .ok { status := 1, printed := some (p.diagnostic.format form false) }
  | .error (.crash crash) => .error crash

/-- **A run of a command.** A session that watches is handed to whoever can follow it in time. -/
def runCommand (selfNames : Locale.SelfNames) (follow : Session → ExceptT Crash m Ending)
    (a : Arguments) : ExceptT Crash m Ending := do
  let form ← ExceptT.mk (pure (a.format.orFault Crash.blankFormat))
  let resolved ← ExceptT.lift (optionsOf a).run
  match resolved with
  | .error fault => ExceptT.mk (pure (conclude (α := Unit) form (.error fault)))
  | .ok options =>
    match a.command with
    | .build =>
      let outcome ← ExceptT.lift (Compile.run selfNames options).run
      ExceptT.mk (pure (conclude form outcome))
    | .watch =>
      let session ← Session.start selfNames options form
      let _ ← ExceptT.mk (pure (a.pollInterval.orFault Crash.blankPollInterval))
      follow session

/-- The end of a run without a command to run. -/
def Usage.ending : Usage → Ending
  | .help => { status := 0 }
  | .wrong => { status := 2 }

/-- **A run of a command line.** -/
def run (selfNames : Locale.SelfNames) (follow : Session → ExceptT Crash m Ending)
    (arguments : List Text) : ExceptT Crash m Ending :=
  match Arguments.parse arguments with
  | .error usage => return usage.ending
  | .ok a => runCommand selfNames follow a

/-- A session that is interrupted as soon as its first compile has ended. -/
def interruptAfterCompile (s : Session) : ExceptT Crash m Ending := do
  let _ ← ExceptT.lift s.compile
  ExceptT.lift (Host.tell .stopped)
  return { status := 0 }

end Phrasebook.CommandLine
