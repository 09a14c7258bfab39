import Phrasebook.Diagnostic.Notice
import Phrasebook.Disk.Path

/-! # What a compile asks of a machine

The operations on files that a compile needs, each of which may fail on its own, together with a
clock and a place for notices. A compile is written for any machine that has them. -/

namespace Phrasebook

/-- Why an operation on a file fails. -/
inductive FileFault where
  | noSuchFile
  | isDirectory
  | notDirectory
  | fileExists
  | busy
  /-- Anything else, in the words of the machine. -/
  | other (message : Text)
deriving DecidableEq

/-- The wording of a fault. -/
def FileFault.message : FileFault → Text
  | noSuchFile => "No such file or directory"
  | isDirectory => "Is a directory"
  | notDirectory => "Not a directory"
  | fileExists => "File exists"
  | busy => "Device or resource busy"
  | other message => message

/-- What tells two states of a file apart: the time of its last change and its size. -/
structure Stamp where
  changed : Int
  size : Int
deriving DecidableEq

/-- **A machine with files.** -/
class Host (m : Type → Type) where
  /-- The content of a file. -/
  readBytes : DiskPath → ExceptT FileFault m Bytes
  /-- The names in a directory, in any order. -/
  listNames : DiskPath → ExceptT FileFault m (List Text)
  /-- Whether there is a file at a path. -/
  isFile : DiskPath → ExceptT FileFault m Bool
  /-- Whether there is a directory at a path. -/
  isDirectory : DiskPath → m Bool
  /-- Creates a directory inside an existing one. -/
  makeDirectory : DiskPath → ExceptT FileFault m Unit
  /-- Creates an empty file in a directory under a new name that holds the given one. -/
  createTemporary : DiskPath → Text → ExceptT FileFault m DiskPath
  /-- Gives a file its content. -/
  writeBytes : DiskPath → Bytes → ExceptT FileFault m Unit
  /-- Moves a file to a path in one go, in place of the file that is there. -/
  replace : DiskPath → DiskPath → ExceptT FileFault m Unit
  /-- Removes a file. -/
  removeFile : DiskPath → ExceptT FileFault m Unit
  /-- The stamp of a file. -/
  stamp : DiskPath → ExceptT FileFault m Stamp
  /-- The directory at which relative paths start. -/
  workingDirectory : m DiskPath
  /-- The time in microseconds since some fixed moment. -/
  clock : m Nat
  /-- Takes a notice. -/
  tell : Notice → m Unit

namespace Host

variable {m : Type → Type} [Monad m] [Host m]

/-- Takes several notices. -/
def tellAll : List Notice → m Unit
  | [] => pure ()
  | n :: rest => do
    tell n
    tellAll rest

/-- A stage that touches no file, with its notices. -/
def report {ε α : Type} (r : Report ε α) : ExceptT ε m α := do
  ExceptT.lift (tellAll r.notices : m Unit)
  ExceptT.mk (pure r.outcome)

/-- An attempt whose failure does not matter if there is a directory at the path after all. -/
def unlessDirectory (path : DiskPath) (attempt : ExceptT FileFault m Unit) :
    ExceptT FileFault m Unit :=
  tryCatch attempt fun fault => do
    let isThere ← ExceptT.lift (isDirectory path : m Bool)
    if fault ≠ .noSuchFile ∧ isThere = true then return else throw fault

/-- Creates the directories with the given parts one below the other, the last part first: a
directory is created, and where it lacks its parent, the parent before it. A directory that exists
is left as it is. -/
def makeDirectoriesOf (start : PathStart) : List Text → ExceptT FileFault m Unit
  | [] => unlessDirectory ⟨start, []⟩ (makeDirectory ⟨start, []⟩)
  | last :: above =>
    let path : DiskPath := ⟨start, (last :: above).reverse⟩
    tryCatch (makeDirectory path) fun fault =>
      if fault = .noSuchFile then do
        makeDirectoriesOf start above
        unlessDirectory path (makeDirectory path)
      else unlessDirectory path (throw fault)

/-- **Creates a directory** and the directories above it that are missing. -/
def makeDirectories (path : DiskPath) : ExceptT FileFault m Unit :=
  makeDirectoriesOf path.start path.parts.reverse

end Host

end Phrasebook
