import Phrasebook.Artifact.Modules
import Phrasebook.Disk.Path

/-! # Options of a compile

What a compile reads, what it writes, and how often it is repeated. Options come from a
configuration file and from the command line; a draft holds those that have been given. -/

namespace Phrasebook

/-- What is wrong with options. -/
inductive OptionsFault where
  /-- The default locale is empty. -/
  | emptyDefaultLocale
  /-- The pause between rebuilds is negative. -/
  | negativeDebounce (debounce : Number)
  /-- No default locale is given. -/
  | noDefaultLocale
  /-- The section for this program is no table. -/
  | sectionNotTable
  | unknownKey (key : Text)
  | notNumber (key : Text)
  | notText (key : Text)
deriving DecidableEq

namespace OptionsFault

/-- A key between quotation marks. -/
def quotedKey (key : Text) : Text := "'" ++ key ++ "'"

/-- The wording of a fault. -/
def message : OptionsFault → Text
  | emptyDefaultLocale => "default locale is empty"
  | negativeDebounce debounce => "debounce must be >= 0, got " ++ debounce.toText
  | noDefaultLocale =>
    "no default locale (pass --default-locale or set default-locale in [tool.langkit])"
  | sectionNotTable => "[tool.langkit] must be a table"
  | unknownKey key => "unknown key " ++ quotedKey key
  | notNumber key => quotedKey key ++ " must be a number"
  | notText key => quotedKey key ++ " must be a non-empty string"

/-- The problem of a fault in a file, or on the command line. -/
def problem (fault : OptionsFault) (location : Option Text := none) : Problem :=
  .invalidConfiguration fault.message location

end OptionsFault

/-- **The options of a compile.** -/
structure Options where
  /-- The locale that is exported as the default. -/
  defaultLocale : Text
  /-- The directory of the documents. -/
  languageDirectory : Given Text
  /-- The path of the data module. -/
  dataPath : Given Text
  /-- The path of the declaration module. -/
  typesPath : Given Text
  /-- The name under which the declaration module is published. -/
  moduleAlias : Given Text
  /-- The pause between two rebuilds, in seconds. -/
  debounce : Number
  defaultLocale_ne_nil : defaultLocale ≠ []
  debounce_nonneg : debounce.isNegative = false

namespace Options

/-- The directory of the documents where none is given. -/
def usualLanguageDirectory : Text := "./lang"

/-- The path of the data module where none is given. -/
def usualDataPath : Text := "./.generated/lang.js"

/-- The path of the declaration module where none is given. -/
def usualTypesPath : Text := "./src/lang.d.ts"

/-- The pause between two rebuilds where none is given: one second. -/
def usualDebounce : Number := .float (Binary64.ofQuotient false 1 1)

/-- **Options of the given values**, unless the default locale is empty or the pause negative or
blank. -/
def of (defaultLocale : Text) (languageDirectory : Given Text := usualLanguageDirectory)
    (dataPath : Given Text := usualDataPath) (typesPath : Given Text := usualTypesPath)
    (moduleAlias : Given Text := Modules.usualAlias) (debounce : Given Number := usualDebounce) :
    Except Fault Options :=
  if hl : defaultLocale = [] then .error (.problem OptionsFault.emptyDefaultLocale.problem)
  else
    match debounce with
    | .blank => .error (.crash .blankDebounce)
    | .value debounce =>
      if hd : debounce.isNegative = true then
        .error (.problem (OptionsFault.negativeDebounce debounce).problem)
      else
        .ok { defaultLocale, languageDirectory, dataPath, typesPath, moduleAlias, debounce
              defaultLocale_ne_nil := hl
              debounce_nonneg := Bool.eq_false_iff.mpr hd }

/-- A path that starts at a directory, unless it starts at the root. -/
def anchor (base : DiskPath) (path : Text) : Text := (base.join (.ofText path)).toText

/-- The options with their relative paths starting at a directory. -/
def resolve (o : Options) (base : DiskPath) : Options :=
  { o with
    languageDirectory := o.languageDirectory.map (anchor base)
    dataPath := o.dataPath.map (anchor base)
    typesPath := o.typesPath.map (anchor base) }

end Options

/-- **The options that have been given.** -/
structure Draft where
  defaultLocale : Option Text := none
  languageDirectory : Option (Given Text) := none
  dataPath : Option (Given Text) := none
  typesPath : Option (Given Text) := none
  moduleAlias : Option (Given Text) := none
  debounce : Option (Given Binary64) := none
deriving DecidableEq

namespace Draft

/-- The options of a draft, in which those of another stand in place of its own. -/
def overriddenBy (d other : Draft) : Draft where
  defaultLocale := other.defaultLocale.or d.defaultLocale
  languageDirectory := other.languageDirectory.or d.languageDirectory
  dataPath := other.dataPath.or d.dataPath
  typesPath := other.typesPath.or d.typesPath
  moduleAlias := other.moduleAlias.or d.moduleAlias
  debounce := other.debounce.or d.debounce

/-- The draft with its relative paths starting at a directory. -/
def anchored (d : Draft) (base : DiskPath) : Draft :=
  { d with
    languageDirectory := d.languageDirectory.map (Given.map (Options.anchor base))
    dataPath := d.dataPath.map (Given.map (Options.anchor base))
    typesPath := d.typesPath.map (Given.map (Options.anchor base)) }

/-- The number of options given. -/
def size (d : Draft) : Nat :=
  d.defaultLocale.toList.length + d.languageDirectory.toList.length + d.dataPath.toList.length +
    d.typesPath.toList.length + d.moduleAlias.toList.length + d.debounce.toList.length

/-- **The options of a draft**, with the usual values for those that have not been given. -/
def toOptions (d : Draft) : Except Fault Options :=
  match d.defaultLocale with
  | none => .error (.problem OptionsFault.noDefaultLocale.problem)
  | some defaultLocale =>
    Options.of defaultLocale (d.languageDirectory.getD Options.usualLanguageDirectory)
      (d.dataPath.getD Options.usualDataPath) (d.typesPath.getD Options.usualTypesPath)
      (d.moduleAlias.getD Modules.usualAlias)
      ((d.debounce.map (Given.map .float)).getD Options.usualDebounce)

end Draft

end Phrasebook
