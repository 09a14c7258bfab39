import Phrasebook.Disk.Tree

/-! # A machine as a value

A machine is a disk, the notices taken so far, and a plan of faults: each operation that may fail
uses up one item of the plan, and fails without an effect where the plan says so. -/

namespace Phrasebook

/-- **A machine.** -/
structure Machine where
  disk : Disk := {}
  /-- The faults of the operations to come; those beyond the list have none. -/
  plan : List (Option FileFault) := []
  /-- The notices taken, the latest last. -/
  notices : List Notice := []

namespace Machine

/-- An operation on the disk that may be planned to fail. -/
def operate {α : Type} (operation : Disk → Except FileFault (α × Disk)) :
    ExceptT FileFault (StateM Machine) α :=
  ExceptT.mk fun machine =>
    match machine.plan with
    | some fault :: plan => (.error fault, { machine with plan })
    | none :: plan =>
      match operation machine.disk with
      | .ok (a, disk) => (.ok a, { machine with plan, disk })
      | .error fault => (.error fault, { machine with plan })
    | [] =>
      match operation machine.disk with
      | .ok (a, disk) => (.ok a, { machine with disk })
      | .error fault => (.error fault, machine)

/-- A question to the disk that may be planned to fail. -/
def ask {α : Type} (question : Disk → Except FileFault α) :
    ExceptT FileFault (StateM Machine) α :=
  operate fun disk => (question disk).map (·, disk)

/-- A change of the disk that may be planned to fail. -/
def change (step : Disk → Except FileFault Disk) : ExceptT FileFault (StateM Machine) Unit :=
  operate fun disk => (step disk).map ((), ·)

/-- What a compile does to a machine is a function of the machine. -/
instance : Host (StateM Machine) where
  readBytes path := ask fun disk => disk.read path
  listNames path := ask fun disk => disk.list path
  isFile path := ask fun disk => .ok (disk.isFile path)
  isDirectory path := fun machine => (machine.disk.isDirectory path, machine)
  makeDirectory path := change fun disk => disk.makeDirectory path
  createTemporary directory name := operate fun disk => disk.createTemporary directory name
  writeBytes path content := change fun disk => disk.write path content
  replace source target := change fun disk => disk.replace source target
  removeFile path := change fun disk => disk.remove path
  stamp path := ask fun disk => disk.stamp path
  workingDirectory := fun machine => (⟨.root, machine.disk.workingDirectory⟩, machine)
  clock := fun machine => (0, machine)
  tell notice := fun machine =>
    ((), { machine with notices := machine.notices ++ [notice] })

end Machine

end Phrasebook
