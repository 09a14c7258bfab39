import Phrasebook.Compile.Generation
import Phrasebook.Disk.Artifact
import Phrasebook.Document.Load
import Phrasebook.Settings.Options

/-! # A whole compile

A compile reads the documents, generates the modules and writes them as artifacts. Nothing is
written before everything else has succeeded, so a compile that fails on the way leaves the
artifacts as they are. -/

namespace Phrasebook.Compile

variable {m : Type → Type} [Monad m] [Host m]

/-- Writes an artifact and tells whether that was necessary. -/
def writeArtifact (path text : Text) : ExceptT Fault m Unit := do
  let place : DiskPath := .ofText path
  let written ← ExceptT.adapt Fault.problem (Artifact.write place text)
  ExceptT.lift (Host.tell (if written then .artifactWritten place.toText
    else .artifactUnchanged place.toText))

/-- The path that an option must give. -/
def needed (path : Given Text) : ExceptT Fault m Text :=
  ExceptT.mk (pure (path.orFault (.crash .blankPath)))

/-- Writes both modules, once the paths of both are known. -/
def writeModules (modules : Modules) (options : Options) : ExceptT Fault m Unit := do
  let dataPath ← needed options.dataPath
  let typesPath ← needed options.typesPath
  writeArtifact dataPath modules.dataModule
  writeArtifact typesPath modules.typesModule

/-- A time in microseconds as milliseconds with one place. -/
def milliseconds (microseconds : Nat) : Text :=
  let tenths := (microseconds + 50) / 100
  Numeral.ofNat (tenths / 10) ++ "." ++ Numeral.ofNat (tenths % 10)

/-- **A compile** with the given options. -/
def run (selfNames : Locale.SelfNames) (options : Options)
    (compiler : Compiler := Template.compiler) : ExceptT Fault m Modules := do
  let started ← ExceptT.lift Host.clock
  let directory ← needed options.languageDirectory
  let documents ← Document.loadAll (.ofText directory)
  let modules ← Host.report (generate selfNames compiler documents options.defaultLocale
    options.moduleAlias none directory)
  writeModules modules options
  let ended ← ExceptT.lift Host.clock
  ExceptT.lift (Host.tell (.compiled modules.locales (milliseconds (ended - started))))
  return modules

end Phrasebook.Compile
