import Phrasebook.Disk.Artifact
import Phrasebook.Document.Basic

/-! # Loading documents

The documents of a directory are the files whose names end in `.json`; the rest of the name is the
locale. All of them are read before the first failure, in the order of their names, is reported. -/

namespace Phrasebook.Document

variable {m : Type → Type} [Monad m] [Host m]

/-- The ending of the names of documents. -/
def suffix : Text := ".json"

/-- The members of a list that pass a test which may fail. -/
def keepIf {α ε : Type} (test : α → ExceptT ε m Bool) : List α → ExceptT ε m (List α)
  | [] => return []
  | a :: rest => do
    let passes ← test a
    let others ← keepIf test rest
    return if passes then a :: others else others

/-- **The paths of the documents of a directory**, in the order of their names. -/
def discover (directory : DiskPath) : ExceptT Problem m (List DiskPath) :=
  ExceptT.adapt (fun fault => .documentUnreadable directory.toText (FileFault.message fault))
    (do
      let names ← Host.listNames directory
      let paths := (Sorted.ofList names).map directory.child
      keepIf Host.isFile (paths.filter fun path => path.suffix = suffix))

/-- **Reads the document at a path.** -/
def load (path : DiskPath) : ExceptT Fault m Document := do
  let text ← ExceptT.adapt (fun reason => .problem (.documentUnreadable path.toText reason))
    (Artifact.readText path)
  let tree ← ExceptT.mk (pure (decode text path.toText))
  ExceptT.lift (Host.tell (.documentLoaded path.toText))
  return { locale := path.stem, tree, source := path.toText }

/-- Reads documents one after the other, whether or not those before them could be read. -/
def attemptAll : List DiskPath → m (List (Except Fault Document))
  | [] => return []
  | path :: rest => do
    let attempt ← (load path).run
    let others ← attemptAll rest
    return attempt :: others

/-- The documents if all could be read, or the first failure. -/
def collect : List (Except Fault Document) → Except Fault (List Document)
  | [] => .ok []
  | .error fault :: _ => .error fault
  | .ok document :: rest => (collect rest).map (document :: ·)

/-- **Reads the documents of a directory.** -/
def loadAll (directory : DiskPath) : ExceptT Fault m (List Document) := do
  let paths ← ExceptT.adapt Fault.problem (discover directory)
  let attempts ← ExceptT.lift (attemptAll paths)
  ExceptT.mk (pure (collect attempts))

end Phrasebook.Document
