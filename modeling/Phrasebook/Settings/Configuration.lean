import Phrasebook.Disk.Host
import Phrasebook.Settings.Options
import Phrasebook.Toml.Decode

/-! # Configuration files

A configuration file is a TOML text. The options stand in one section of it, under keys of their
own; its relative paths start at the directory of the file. -/

namespace Phrasebook

/-- What a key of the section sets. -/
inductive Setting where
  | languageDirectory
  | dataPath
  | typesPath
  | defaultLocale
  | moduleAlias
  | debounce
deriving DecidableEq

namespace Setting

/-- The key of a setting. -/
def key : Setting → Text
  | languageDirectory => "lang-dir"
  | dataPath => "data-out"
  | typesPath => "types-out"
  | defaultLocale => "default-locale"
  | moduleAlias => "alias"
  | debounce => "debounce"

/-- Every setting. -/
def all : List Setting :=
  [languageDirectory, dataPath, typesPath, defaultLocale, moduleAlias, debounce]

/-- The setting of a key. -/
def ofKey? (key : Text) : Option Setting := all.find? (·.key = key)

end Setting

namespace Configuration

/-- The number that a value of the pause is read as. -/
def seconds? (key : Text) : Datum Foreign → Except OptionsFault Number
  | .number n => .ok n
  | _ => .error (.notNumber key)

/-- The text that a value of any other setting is. -/
def nonEmptyText? (key : Text) : Datum Foreign → Except OptionsFault Text
  | .text t => if t = [] then .error (.notText key) else .ok t
  | _ => .error (.notText key)

/-- A draft with the value of one key of the section, given in a file at a location. -/
def set (location : Text) (d : Draft) (key : Text) (value : Datum Foreign) : Except Fault Draft :=
  let refuse (fault : OptionsFault) : Fault := .problem (fault.problem (some location))
  let text := (nonEmptyText? key value).mapError refuse
  match Setting.ofKey? key with
  | none => .error (refuse (.unknownKey key))
  | some .languageDirectory => text.map fun t => { d with languageDirectory := some t }
  | some .dataPath => text.map fun t => { d with dataPath := some t }
  | some .typesPath => text.map fun t => { d with typesPath := some t }
  | some .defaultLocale => text.map fun t => { d with defaultLocale := some t }
  | some .moduleAlias => text.map fun t => { d with moduleAlias := some t }
  | some .debounce =>
    match seconds? key value with
    | .error fault => .error (refuse fault)
    | .ok n =>
      match n.toBinary64? with
      | none => .error (.crash .numberOutOfRange)
      | some x => .ok { d with debounce := some x }

/-- A draft with the values of the entries of the section, in order. -/
def setAll (location : Text) (d : Draft) :
    List (DatumKey × Datum Foreign) → Except Fault Draft
  | [] => .ok d
  | (key, value) :: rest =>
    match set location d key.toText value with
    | .ok extended => setAll location extended rest
    | .error fault => .error fault

/-- The section for this program in a file, if the file has one. -/
def section? (entries : List (DatumKey × Datum Foreign)) :
    Except Crash (Option (Datum Foreign)) :=
  match Datum.entry? "tool" entries with
  | none => .ok none
  | some (.map tools) => .ok (Datum.entry? "langkit" tools)
  | some _ => .error .toolNotTable

/-- **The draft of the entries of a file.** -/
def ofEntries (path : DiskPath) (entries : List (DatumKey × Datum Foreign)) :
    Report Fault Draft :=
  match section? entries with
  | .error crash => .fail (.crash crash)
  | .ok none => ⟨[.sectionMissing path.toText], .ok {}⟩
  | .ok (some (.map options)) => do
    let draft ← .ofExcept (setAll path.toText {} options)
    .tell (.optionsLoaded draft.size path.toText)
    return draft.anchored path.parent
  | .ok (some _) => .fail (.problem (OptionsFault.sectionNotTable.problem (some path.toText)))

/-- The entries of a file with the given content. -/
def entriesOf (path : DiskPath) (content : Bytes) :
    Except Fault (List (DatumKey × Datum Foreign)) :=
  match Utf8.decode content with
  | .error fault => .error (.crash (.configurationNotUtf8 fault))
  | .ok text =>
    match Toml.decode text with
    | .ok entries => .ok entries
    | .error (.integerTooLong digits) => .error (.crash (.integerTooLong digits))
    | .error (.malformed reason left) =>
      .error (.problem (.invalidConfiguration (Toml.malformedMessage text reason left)
        (some path.toText)))

/-- The draft of a file with the given content. -/
def ofContent (path : DiskPath) (content : Bytes) : Report Fault Draft := do
  let entries ← .ofExcept (entriesOf path content)
  ofEntries path entries

variable {m : Type → Type} [Monad m] [Host m]

/-- **Reads the configuration file at a path.** -/
def load (path : DiskPath) : ExceptT Fault m Draft := do
  let content ← ExceptT.adapt
    (fun fault => .problem (.invalidConfiguration (FileFault.message fault) (some path.toText)))
    (Host.readBytes path)
  Host.report (ofContent path content)

/-- The name of configuration files. -/
def fileName : Text := "pyproject.toml"

/-- The first of some paths at which there is a file. -/
def firstFile? : List DiskPath → m (Option DiskPath)
  | [] => return none
  | path :: rest => do
    match ← (Host.isFile path).run with
    | .ok true => return some path
    | _ => firstFile? rest

/-- The configuration files that a directory and those above it may have, the nearest first. -/
def candidates (directory : DiskPath) : List DiskPath :=
  let count := directory.parts.length
  (List.range (count + 1)).map fun n =>
    DiskPath.child ⟨directory.start, directory.parts.take (count - n)⟩ fileName

/-- **The nearest configuration file** at or above a path. -/
def find? (start : DiskPath) : m (Option DiskPath) := do
  let here ← Host.workingDirectory
  firstFile? (candidates (DiskPath.resolve here start))

end Configuration

end Phrasebook
