import Phrasebook.Document.Load

/-! # Watching a directory

A snapshot maps the files of a directory whose names have a given ending to their stamps. The
changes between two snapshots are the differences of the maps, in the order of the paths. -/

namespace Phrasebook

/-- The stamps of the files of a directory. -/
abbrev Snapshot := OrderedMap DiskPath Stamp

/-- A change of one file. -/
structure FileChange where
  kind : ChangeKind
  path : DiskPath
deriving DecidableEq

namespace Snapshot

/-- The change of the file at a path from one snapshot to another, if it has changed. -/
def changeAt? (old new : Snapshot) (path : DiskPath) : Option FileChange :=
  match old.get? path, new.get? path with
  | none, none => none
  | some _, none => some ⟨.removed, path⟩
  | none, some _ => some ⟨.added, path⟩
  | some before, some after => if before = after then none else some ⟨.changed, path⟩

/-- **The changes from one snapshot to another**, in the order of the paths. -/
def diff (old new : Snapshot) : List FileChange :=
  (Sorted.ofList (old.keys ++ new.keys)).filterMap (changeAt? old new)

end Snapshot

/-- **A watched directory** and its latest snapshot. -/
structure Poller where
  directory : DiskPath
  suffix : Text := Document.suffix
  latest : Snapshot := []

namespace Poller

variable {m : Type → Type} [Monad m] [Host m]

/-- The stamp of the file at a path; nothing if there is no file, or none any more. -/
def stampOf? (path : DiskPath) : ExceptT FileFault m (Option Stamp) :=
  tryCatch
    (do
      if ← Host.isFile path then return some (← Host.stamp path) else return none)
    fun fault => if fault = .noSuchFile then return none else throw fault

/-- The stamps of those of some paths at which there is a file. -/
def stampsOf : List DiskPath → ExceptT FileFault m Snapshot
  | [] => return []
  | path :: rest => do
    let stamp ← stampOf? path
    let others ← stampsOf rest
    return match stamp with
      | some stamp => (path, stamp) :: others
      | none => others

/-- The snapshot of a directory; a directory that is not there has no files. -/
def snapshot (directory : DiskPath) (suffix : Text) : ExceptT FileFault m Snapshot :=
  tryCatch
    (do
      let names ← Host.listNames directory
      stampsOf ((names.filter fun name => name.endsWith suffix).map directory.child))
    fun fault => if fault = .noSuchFile then return [] else throw fault

/-- What it means that a directory cannot be watched. -/
def crash (directory : DiskPath) (fault : FileFault) : Crash :=
  if fault = .notDirectory then .watchedFile directory.toText
  else .unwatchable directory.toText fault.message

/-- **Starts to watch a directory**: only later changes are reported. -/
def start (directory : DiskPath) (suffix : Text := Document.suffix) : ExceptT Crash m Poller := do
  let latest ← ExceptT.adapt (crash directory) (snapshot directory suffix)
  return { directory, suffix, latest }

/-- **The changes since the last look** at the directory. -/
def poll (p : Poller) : ExceptT Crash m (List FileChange × Poller) := do
  let latest ← ExceptT.adapt (crash p.directory) (snapshot p.directory p.suffix)
  return (p.latest.diff latest, { p with latest })

end Poller

end Phrasebook
