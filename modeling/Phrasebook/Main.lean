import Phrasebook.CommandLine.Run
import Phrasebook.CommandLine.SelfNames
import Phrasebook.Disk.Tree

/-! # The command

The machine is the one that the command runs on: its files, its clock, and its standard error
stream, which gets the notices of a level and above. -/

namespace Phrasebook.CommandLine

/-- What is done on the machine, given the least level of the notices that are shown. -/
abbrev Live := ReaderT Level IO

/-- A text as a string; a lone surrogate is written as an escape. -/
def string (t : Text) : String :=
  String.ofList ((Text.spellSurrogates t).map fun c => Char.ofNat c.val)

/-- The string of a path. -/
def place (path : DiskPath) : String := string path.toText

/-- What an error of an operation on a file means. The number of an error may come with either
sign. -/
def faultOf : IO.Error → FileFault
  | .noFileOrDirectory .. => .noSuchFile
  | .alreadyExists .. => .fileExists
  | .inappropriateType _ code details =>
    if code = 20 ∨ code = -20 then .notDirectory
    else if code = 21 ∨ code = -21 then .isDirectory
    else .other details
  | .resourceBusy .. => .busy
  | .permissionDenied .. => .other "Permission denied"
  | e => .other (toString e : String)

/-- An operation on a file. -/
def operate {α : Type} (operation : IO α) : ExceptT FileFault Live α :=
  ExceptT.mk do
    match ← operation.toBaseIO with
    | .ok a => return .ok a
    | .error e => return .error (faultOf e)

/-- What is known about a file without reading it. -/
def metadata (path : DiskPath) : IO IO.FS.Metadata := (System.mkFilePath [place path]).metadata

/-- The time of a change in nanoseconds. -/
def nanoseconds (t : IO.FS.SystemTime) : Int := t.sec * 1000000000 + (t.nsec.toNat : Int)

/-- Shows a text as a line of the standard error stream. -/
def printLine (t : Text) : IO Unit := do (← IO.getStderr).putStrLn (string t)

instance : Host Live where
  readBytes path := operate do return (← IO.FS.readBinFile (place path)).toList
  listNames path := operate do
    let entries ← (System.mkFilePath [place path]).readDir
    return entries.toList.map fun entry => Text.ofString entry.fileName
  isFile path := fun _ => do
    match ← (metadata path).toBaseIO with
    | .ok known => return .ok (known.type == .file)
    | .error e =>
      match faultOf e with
      | .noSuchFile | .notDirectory => return .ok false
      | fault => return .error fault
  isDirectory path := fun _ => (System.mkFilePath [place path]).isDir
  makeDirectory path := operate (IO.FS.createDir (place path))
  createTemporary directory name := operate do
    let path := directory.child (Disk.temporaryName name (← IO.monoNanosNow))
    let _ ← IO.FS.Handle.mk (place path) .writeNew
    return path
  writeBytes path content := operate (IO.FS.writeBinFile (place path) ⟨content.toArray⟩)
  replace source target := operate (IO.FS.rename (place source) (place target))
  removeFile path := operate (IO.FS.removeFile (place path))
  stamp path := operate do
    let known ← metadata path
    return ⟨nanoseconds known.modified, (known.byteSize.toNat : Int)⟩
  workingDirectory := fun _ => do
    return DiskPath.ofText (Text.ofString (← IO.currentDir).toString)
  clock := fun _ => do return (← IO.monoNanosNow) / 1000
  tell notice := fun least => if notice.isShownAt least then printLine notice.line else return

/-! ### Watching -/

/-- A time in seconds as whole milliseconds, at most about a day. -/
def milliseconds : Binary64 → Nat
  | .finite false mantissa exponent =>
    let unit := Binary64.powerOfTwo exponent
    min 100000000 (mantissa * unit.1 * 1000 / unit.2)
  | .infinite false => 100000000
  | _ => 0

/-- Follows a session for as long as nobody stops it. -/
partial def follow (interval : Nat) (s : Session) : ExceptT Crash Live Ending := do
  let before ← ExceptT.lift (Host.clock (m := Live))
  let compiled ← ExceptT.lift (s.compile (m := Live))
  IO.sleep interval.toUInt32
  let after ← ExceptT.lift (Host.clock (m := Live))
  let passed := Binary64.ofQuotient false (after - before) 1000000
  let seen ← (compiled.advance (.float passed)).poll
  follow interval seen

/-! ### Usage -/

/-- How a flag is written. -/
def usageOf (f : Flag) : Text :=
  let names : Text := Text.join ", " f.names
  if f.hasValue then names ++ " VALUE" else names

/-- How a command line is written. -/
def usage : Text :=
  let heading : Text := "usage: build|watch [flag ...]"
  Text.join [CodePoint.lf] (heading :: Command.watch.flags.map fun f => "  " ++ usageOf f)

/-- Runs a command line and gives its exit status. -/
def execute (arguments : List Text) : IO Nat := do
  match Arguments.parse arguments with
  | .error problem =>
    match problem with
    | .help => IO.println (string usage)
    | .wrong => printLine usage
    return problem.ending.status
  | .ok a =>
    let interval := milliseconds (a.pollInterval.getD usualPollInterval)
    let outcome ← (runCommand (m := Live) selfNames (follow interval) a).run a.level
    match outcome with
    | .ok ending =>
      ending.printed.forM printLine
      return ending.status
    | .error crash =>
      printLine crash.message
      return 1

end Phrasebook.CommandLine

/-- The command. -/
def main (arguments : List String) : IO UInt32 := do
  let status ← Phrasebook.CommandLine.execute (arguments.map Phrasebook.Text.ofString)
  return status.toUInt32
