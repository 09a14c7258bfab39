import Phrasebook.Disk.Host
import Phrasebook.Text.Utf8

/-! # Writing artifacts

An artifact is replaced in one go: its text goes to a temporary file beside it, which is then moved
into its place. An artifact that holds its text already is left alone. Whatever fails, the artifact
keeps its content and the temporary file is removed. -/

namespace Phrasebook.Artifact

variable {m : Type → Type} [Monad m] [Host m]

/-- An operation on a file whose failure is told in its own words. -/
def worded {α : Type} (attempt : ExceptT FileFault m α) : ExceptT Text m α :=
  ExceptT.adapt FileFault.message attempt

/-- The text of a file, with unified line breaks. -/
def readText (path : DiskPath) : ExceptT Text m Text := do
  let bytes ← worded (Host.readBytes path)
  match Utf8.decode bytes with
  | .ok t => return t.unifyLineBreaks
  | .error fault => throw fault.message

/-- Whether a file is there and holds a text. -/
def holds (path : DiskPath) (text : Text) : ExceptT Text m Bool := do
  if ← worded (Host.isFile path) then
    let old ← readText path
    return old = text
  else return false

/-- Gives a file the UTF-8 bytes of a text. -/
def writeText (path : DiskPath) (text : Text) : ExceptT Text m Unit :=
  match Utf8.encode text with
  | .ok bytes => worded (Host.writeBytes path bytes)
  | .error run => throw run.message

/-- Removes a file, if it is there. -/
def discard (path : DiskPath) : ExceptT FileFault m Unit :=
  tryCatch (Host.removeFile path) fun fault =>
    if fault = .noSuchFile then return else throw fault

/-- Replaces a file by way of a temporary file in the same directory. -/
def replaceText (path : DiskPath) (text : Text) : ExceptT Text m Unit := do
  worded (Host.makeDirectories path.parent)
  let temporary ← worded (Host.createTemporary path.parent path.name)
  tryCatch
    (do
      writeText temporary text
      worded (Host.replace temporary path))
    fun reason => do
      worded (discard temporary)
      throw reason

/-- **Writes an artifact**; the answer tells whether that was necessary. -/
def write (path : DiskPath) (text : Text) : ExceptT Problem m Bool :=
  ExceptT.adapt (Problem.artifactWriteFailed path.toText)
    (do
      if ← holds path text then return false
      replaceText path text
      return true)

end Phrasebook.Artifact
