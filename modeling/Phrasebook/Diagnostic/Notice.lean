import Phrasebook.Diagnostic.Problem

/-! # Notices

What a compile tells while it runs, each kind with the stage it comes from and its level. A stage
that may fail returns a `Report`: the notices it gave before it ended, and how it ended. -/

namespace Phrasebook

/-- How important a notice is. -/
inductive Level where
  | debug
  | info
  | warning
  | error
deriving DecidableEq

namespace Level

/-- The name of a level. -/
def name : Level → Text
  | debug => "DEBUG"
  | info => "INFO"
  | warning => "WARNING"
  | error => "ERROR"

/-- The rank of a level, the least important first. -/
def rank : Level → Nat
  | debug => 0
  | info => 1
  | warning => 2
  | error => 3

end Level

/-- The kinds of changes to the files of a directory. -/
inductive ChangeKind where
  | changed
  | added
  | removed
deriving DecidableEq

/-- The name of a kind of change. -/
def ChangeKind.name : ChangeKind → Text
  | changed => "changed"
  | added => "added"
  | removed => "removed"

/-- **What a compile tells.** -/
inductive Notice where
  /-- A requested depth limit does not fit. -/
  | depthLowered (requested ceiling frames : Int)
  /-- A template has been compiled. -/
  | templateCompiled (signature : Text)
  /-- A key has been defined. -/
  | newKey (key signature locale : Text)
  /-- A value that is not a text is skipped. -/
  | valueSkipped (path locale typeName : Text)
  /-- A document has been merged. -/
  | documentMerged (count : Nat) (locale : Text)
  /-- A locale leaves keys untranslated. -/
  | keysMissing (locale : Text) (missing total : Nat) (first : Text)
  /-- A locale has no display name. -/
  | localeUnknown (locale : Text)
  /-- Both modules have been laid out. -/
  | modulesEmitted (dataLength typesLength : Nat)
  /-- A document has been read. -/
  | documentLoaded (path : Text)
  /-- An artifact has been written. -/
  | artifactWritten (path : Text)
  /-- An artifact held its text already. -/
  | artifactUnchanged (path : Text)
  /-- A compile has succeeded. -/
  | compiled (locales : List Text) (elapsed : Text)
  /-- A configuration file has been read. -/
  | optionsLoaded (count : Nat) (path : Text)
  /-- A configuration file says nothing. -/
  | sectionMissing (path : Text)
  /-- A directory is watched. -/
  | watching (directory : Text)
  /-- A document of the watched directory has changed. -/
  | fileChanged (kind : ChangeKind) (name : Text)
  /-- A rebuild waits for the one in flight. -/
  | rebuildQueued
  /-- A rebuild has failed. -/
  | rebuildFailed (detail : Text)
  /-- Watching has been interrupted. -/
  | stopped
deriving DecidableEq

namespace Notice

/-- The level of a notice. -/
def level : Notice → Level
  | depthLowered .. | valueSkipped .. | localeUnknown .. => .warning
  | keysMissing .. | compiled .. | watching .. | fileChanged .. | stopped => .info
  | rebuildFailed .. => .error
  | templateCompiled .. | newKey .. | documentMerged .. | modulesEmitted .. | documentLoaded ..
  | artifactWritten .. | artifactUnchanged .. | optionsLoaded .. | sectionMissing ..
  | rebuildQueued => .debug

/-- The stage a notice comes from, under the name its lines carry. -/
def origin : Notice → Text
  | depthLowered .. => "langkit.core.depth_guard"
  | templateCompiled .. => "langkit.template"
  | newKey .. | valueSkipped .. | documentMerged .. | keysMissing .. => "langkit.compiler.merge"
  | localeUnknown .. => "langkit.locale_utils"
  | modulesEmitted .. => "langkit.compiler.emit"
  | documentLoaded .. => "langkit.documents"
  | artifactWritten .. | artifactUnchanged .. | compiled .. => "langkit.build"
  | optionsLoaded .. | sectionMissing .. => "langkit.config"
  | watching .. | fileChanged .. | rebuildQueued | rebuildFailed .. => "langkit.watch"
  | stopped => "langkit.cli"

/-- The wording of a notice. -/
def message : Notice → Text
  | depthLowered requested ceiling frames =>
    "Depth limit " ++ Numeral.ofInt requested ++ " lowered to " ++ Numeral.ofInt ceiling ++
      " to stay under the recursion limit of " ++ Numeral.ofInt frames
  | templateCompiled signature => "Compiled template with signature " ++ signature
  | newKey key signature locale =>
    "New key '" ++ key ++ "' " ++ signature ++ " (from '" ++ locale ++ "')"
  | valueSkipped path locale typeName =>
    (Problem.nonStringValue path locale typeName).diagnostic.message
  | documentMerged count locale =>
    "Merged " ++ Numeral.ofNat count ++ " translations from locale '" ++ locale ++ "'"
  | keysMissing locale missing total first =>
    "Locale '" ++ locale ++ "' is missing " ++ Numeral.ofNat missing ++ " of " ++
      Numeral.ofNat total ++ " keys (first: " ++ first ++ ")"
  | localeUnknown locale => (Problem.unknownLocale locale).diagnostic.message
  | modulesEmitted dataLength typesLength =>
    "Emitted data module (" ++ Numeral.ofNat dataLength ++ " chars) and types module (" ++
      Numeral.ofNat typesLength ++ " chars)"
  | documentLoaded path => "Loaded locale document " ++ path
  | artifactWritten path => "Wrote " ++ path
  | artifactUnchanged path => "Unchanged " ++ path
  | compiled locales elapsed =>
    "Compiled " ++ Numeral.ofNat locales.length ++ " locale(s) [" ++ Text.join ", " locales ++
      "] in " ++ elapsed ++ " ms"
  | optionsLoaded count path =>
    "Loaded " ++ Numeral.ofNat count ++ " option(s) from " ++ path
  | sectionMissing path => "No [tool.langkit] table in " ++ path
  | watching directory => "Watching " ++ directory ++ " for changes"
  | fileChanged kind name => kind.name ++ ": " ++ name
  | rebuildQueued => "Rebuild queued behind the running compile"
  | rebuildFailed detail =>
    "Rebuild failed, keeping previous artifacts:" ++ [CodePoint.lf] ++ detail
  | stopped => "Stopped"

/-- The line of a notice. -/
def line (n : Notice) : Text := n.level.name ++ " " ++ n.origin ++ ": " ++ n.message

/-- Whether a notice is shown when only those of a level and above are. -/
def isShownAt (least : Level) (n : Notice) : Bool := least.rank ≤ n.level.rank

end Notice

/-- **The notices a stage gave and how it ended.** -/
structure Report (ε α : Type) where
  notices : List Notice
  outcome : Except ε α

namespace Report

variable {ε α β : Type}

/-- A stage that ends well and tells nothing. -/
protected def pure (a : α) : Report ε α := ⟨[], .ok a⟩

/-- A stage and, if it ends well, the next one. -/
protected def bind (r : Report ε α) (f : α → Report ε β) : Report ε β :=
  match r.outcome with
  | .ok a => ⟨r.notices ++ (f a).notices, (f a).outcome⟩
  | .error e => ⟨r.notices, .error e⟩

instance : Monad (Report ε) where
  pure := Report.pure
  bind := Report.bind

/-- A stage that fails. -/
def fail (e : ε) : Report ε α := ⟨[], .error e⟩

/-- A stage that gives one notice. -/
def tell (n : Notice) : Report ε Unit := ⟨[n], .ok ()⟩

/-- A stage that tells nothing. -/
def ofExcept (outcome : Except ε α) : Report ε α := ⟨[], outcome⟩

end Report

end Phrasebook
