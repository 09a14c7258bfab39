import Phrasebook.Disk.Host
import Phrasebook.OrderedMap
import Phrasebook.Text.Numeral
import Phrasebook.Text.Utf8

/-! # A disk as a value

A disk holds files and directories, each at a place: the names on the way from the root. It also has
a working directory, at which relative paths start. An operation either gives the changed disk or
says why it fails; then nothing is changed.

A path is followed part by part, and every part but the last must lead to a directory. -/

namespace Phrasebook

/-- The names on the way from the root to a file or a directory. -/
abbrev Place := List Text

/-- What is at a place. -/
inductive DiskNode where
  /-- A file with its content and the time of its last change. -/
  | file (content : Bytes) (changed : Nat)
  | directory
deriving DecidableEq

/-- **A disk.** -/
structure Disk where
  /-- The files and directories below the root. -/
  nodes : OrderedMap Place DiskNode := []
  /-- The place at which relative paths start. -/
  workingDirectory : Place := []
  /-- The time, which every change of a file moves on. -/
  time : Nat := 0

namespace Disk

/-- What is at a place; at the root there is always a directory. -/
def node? (d : Disk) (place : Place) : Option DiskNode :=
  if place = [] then some .directory else d.nodes.get? place

/-- Removes what is at a place. -/
def without (d : Disk) (place : Place) : Disk :=
  { d with nodes := d.nodes.filter fun entry => entry.1 ≠ place }

/-- Puts a file with the given content at a place. -/
def withFile (d : Disk) (place : Place) (content : Bytes) : Disk :=
  { d with nodes := d.nodes.put place (.file content d.time), time := d.time + 1 }

/-- The place that the parts lead to from another. -/
def follow (d : Disk) (place : Place) : List Text → Except FileFault Place
  | [] => .ok place
  | part :: rest =>
    match d.node? place with
    | none => .error .noSuchFile
    | some (.file ..) => .error .notDirectory
    | some .directory =>
      d.follow (if part = DiskPath.up then place.dropLast else place ++ [part]) rest

/-- **The place that a path leads to**, where there may be nothing yet. -/
def locate (d : Disk) (path : DiskPath) : Except FileFault Place :=
  d.follow (if path.isAbsolute then [] else d.workingDirectory) path.parts

/-- What is at the place a path leads to. -/
def find? (d : Disk) (path : DiskPath) : Except FileFault DiskNode :=
  match d.locate path with
  | .error fault => .error fault
  | .ok place =>
    match d.node? place with
    | some node => .ok node
    | none => .error .noSuchFile

/-- Whether there is a file at a path. -/
def isFile (d : Disk) (path : DiskPath) : Bool :=
  match d.find? path with
  | .ok (.file ..) => true
  | _ => false

/-- Whether there is a directory at a path. -/
def isDirectory (d : Disk) (path : DiskPath) : Bool :=
  match d.find? path with
  | .ok .directory => true
  | _ => false

/-- The content of a file. -/
def read (d : Disk) (path : DiskPath) : Except FileFault Bytes :=
  match d.find? path with
  | .ok (.file content _) => .ok content
  | .ok .directory => .error .isDirectory
  | .error fault => .error fault

/-- The stamp of a file. -/
def stamp (d : Disk) (path : DiskPath) : Except FileFault Stamp :=
  match d.find? path with
  | .ok (.file content changed) => .ok ⟨changed, content.length⟩
  | .ok .directory => .ok ⟨0, 0⟩
  | .error fault => .error fault

/-- The name of a place inside another, if it lies directly in it. -/
def nameIn? (directory place : Place) : Option Text :=
  if place.dropLast = directory then place.getLast? else none

/-- The names in a directory. -/
def list (d : Disk) (path : DiskPath) : Except FileFault (List Text) :=
  match d.locate path with
  | .error fault => .error fault
  | .ok place =>
    match d.node? place with
    | none => .error .noSuchFile
    | some (.file ..) => .error .notDirectory
    | some .directory => .ok (d.nodes.filterMap fun entry => nameIn? place entry.1)

/-- What follows the names of a place in another place below it. -/
def namesBelow? (directory place : Place) : Option (List Text) :=
  if directory.isPrefixOf place ∧ directory ≠ place then some (place.drop directory.length)
  else none

/-- **The paths of everything below a place**, in order; those of directories end in a slash. -/
def listing (d : Disk) (directory : Place) : List Text :=
  Sorted.ofList (d.nodes.filterMap fun (place, node) =>
    (namesBelow? directory place).map fun names =>
      Text.join [DiskPath.slash] names ++ if node = .directory then [DiskPath.slash] else [])

/-- Creates a directory. -/
def makeDirectory (d : Disk) (path : DiskPath) : Except FileFault Disk :=
  match d.locate path with
  | .error fault => .error fault
  | .ok place =>
    match d.node? place with
    | some _ => .error .fileExists
    | none => .ok { d with nodes := d.nodes.put place .directory }

/-- Gives a file its content; a file that is not there is created. -/
def write (d : Disk) (path : DiskPath) (content : Bytes) : Except FileFault Disk :=
  match d.locate path with
  | .error fault => .error fault
  | .ok place =>
    match d.node? place with
    | some .directory => .error .isDirectory
    | some (.file ..) | none => .ok (d.withFile place content)

/-- The names of temporary files for a file: hidden, with the name of the file and a number. -/
def temporaryName (name : Text) (number : Nat) : Text :=
  "." ++ name ++ "." ++ Numeral.ofNat number ++ ".tmp"

/-- Creates an empty temporary file for a file in a directory, under the first name that is free. -/
def createTemporary (d : Disk) (directory : DiskPath) (name : Text) :
    Except FileFault (DiskPath × Disk) :=
  match d.list directory with
  | .error fault => .error fault
  | .ok names =>
    let numbers := List.range (names.length + 1)
    match numbers.find? fun number => !names.contains (temporaryName name number) with
    | none => .error .fileExists
    | some number =>
      let path := directory.child (temporaryName name number)
      (d.write path []).map (path, ·)

/-- Whether a path may be the target of a move: its last part is a name. -/
def isTarget (path : DiskPath) : Bool :=
  match path.parts.getLast? with
  | none => false
  | some part => part ≠ DiskPath.up

/-- Moves a file to a path, in place of the file that is there. -/
def replace (d : Disk) (source target : DiskPath) : Except FileFault Disk :=
  match d.locate source, d.locate target with
  | .error fault, _ => .error fault
  | .ok _, .error fault => .error fault
  | .ok old, .ok new =>
    match isTarget target, d.node? old, d.node? new with
    | false, _, _ => .error .busy
    | true, some (.file content changed), some (.file ..)
    | true, some (.file content changed), none =>
      let moved := d.without old
      .ok { moved with nodes := moved.nodes.put new (.file content changed) }
    | true, some (.file ..), some .directory => .error .isDirectory
    | true, some .directory, _ => .error .isDirectory
    | true, none, _ => .error .noSuchFile

/-- Removes a file. -/
def remove (d : Disk) (path : DiskPath) : Except FileFault Disk :=
  match d.locate path with
  | .error fault => .error fault
  | .ok place =>
    match d.node? place with
    | some (.file ..) => .ok (d.without place)
    | some .directory => .error .isDirectory
    | none => .error .noSuchFile

end Disk

end Phrasebook
