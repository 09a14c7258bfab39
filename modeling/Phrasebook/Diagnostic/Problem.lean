import Phrasebook.Diagnostic.Basic
import Phrasebook.Text.Shown
import Phrasebook.Text.Utf8

/-! # Problems

Each way in which a compile can fail or warn, with the facts it is about. The wording lives here
alone: `Problem.diagnostic` for what is reported, `Crash.message` for what no stage is prepared
for. -/

namespace Phrasebook

/-- **A reason to fail or to warn.** -/
inductive Problem where
  /-- The root of a document is neither a mapping nor a list. -/
  | rootMismatch (locale : Text)
  /-- A key is a text in one place and a container in another. -/
  | structureMismatch (key locale : Text)
  /-- Two paths join to one key. -/
  | keyCollision (key locale : Text)
  /-- Two locales use different parameters for one key. -/
  | signatureMismatch (key locale expected actual : Text)
  /-- A template is malformed. -/
  | templateError (reason : Text) (position : Int)
  /-- The template of a key is malformed in a locale. -/
  | templateSyntax (key locale reason : Text) (position : Int)
  /-- A document nests too deep. -/
  | depthExceeded (limit : Int) (path : Text)
  /-- A document cannot be read. -/
  | documentUnreadable (path reason : Text)
  /-- A document is not well formed. -/
  | documentInvalid (path reason : Text) (line column : Int)
  /-- An artifact cannot be written. -/
  | artifactWriteFailed (path reason : Text)
  /-- There is no document. -/
  | noDocuments (directory : Text)
  /-- There is no document of the default locale. -/
  | defaultLocaleMissing (locale : Text) (available : List Text)
  /-- The configuration is invalid. -/
  | invalidConfiguration (reason : Text) (location : Option Text)
  /-- A value that is not a text is skipped. -/
  | nonStringValue (path locale typeName : Text)
  /-- A locale has no display name. -/
  | unknownLocale (locale : Text)
deriving DecidableEq

namespace Problem

/-- A key with the locale it is about. -/
def place (key locale : Text) : Text := key ++ " (" ++ locale ++ ")"

/-- The diagnostic of a mismatch between texts and containers. -/
def mismatch (shownKey locale : Text) : Diagnostic where
  code := .structureMismatch
  message := "Translations structure mis-match: " ++ shownKey
  hint := some ("Make '" ++ shownKey ++ "' either a string or an object in every locale")
  location := some (place shownKey locale)

/-- **The diagnostic of a problem.** -/
def diagnostic : Problem → Diagnostic
  | rootMismatch locale => mismatch "<root>" locale
  | structureMismatch key locale => mismatch key locale
  | keyCollision key locale =>
    { code := .keyCollision
      message := "Key collision: two paths resolve to '" ++ key ++ "'"
      hint := some "Avoid '.' inside property names that shadow nested objects"
      location := some (place key locale) }
  | signatureMismatch key locale expected actual =>
    { code := .signatureMismatch
      message := "Parameter mismatch: " ++ key ++ " (expected " ++ expected ++ ", got " ++ actual ++
        " in '" ++ locale ++ "')"
      hint := some "Use the same placeholders and formatters in every locale"
      location := some (place key locale) }
  | templateError reason position =>
    { code := .templateSyntax
      message := reason ++ " at position " ++ Numeral.ofInt position }
  | templateSyntax key locale reason position =>
    { code := .templateSyntax
      message := "Invalid template for '" ++ key ++ "' in '" ++ locale ++ "': " ++ reason ++
        " at position " ++ Numeral.ofInt position
      hint := some "Escape literal braces as \\\x7b and \\\x7d"
      location := some (place key locale) }
  | depthExceeded limit path =>
    { code := .maxDepthExceeded
      message := "Maximum nesting depth (" ++ Numeral.ofInt limit ++ ") exceeded at '" ++ path ++
        "'"
      hint := some "Flatten the translation document"
      location := some path }
  | documentUnreadable path reason =>
    { code := .documentLoadFailed
      message := "Cannot read locale document " ++ path ++ ": " ++ reason
      location := some path }
  | documentInvalid path reason line column =>
    { code := .documentDecodeFailed
      message := "Invalid JSON in " ++ path ++ ": " ++ reason
      hint := some "Only // and /* */ comments are allowed besides standard JSON"
      location := some (path ++ ":" ++ Numeral.ofInt line ++ ":" ++ Numeral.ofInt column) }
  | artifactWriteFailed path reason =>
    { code := .artifactWriteFailed
      message := "Cannot write " ++ path ++ ": " ++ reason
      location := some path }
  | noDocuments directory =>
    { code := .noDocuments
      message := "No locale documents found in " ++ directory
      hint := some "Add one <locale>.json file per supported locale"
      location := some directory }
  | defaultLocaleMissing locale available =>
    let listing := Text.join ", " available
    { code := .defaultLocaleMissing
      message := "Default locale '" ++ locale ++ "' has no document (available: " ++
        (if listing.isEmpty then ("none" : Text) else listing) ++ ")"
      hint := some ("Add " ++ locale ++ ".json or change the default locale") }
  | invalidConfiguration reason location =>
    { code := .invalidConfiguration
      message := "Invalid configuration: " ++ reason
      location := location }
  | nonStringValue path locale typeName =>
    { code := .nonStringValueSkipped
      message := "Skipping non-string value at '" ++ path ++ "' in '" ++ locale ++ "' (" ++
        typeName ++ ")"
      location := some (place path locale)
      severity := .warning }
  | unknownLocale locale =>
    { code := .unknownLocale
      message := "Locale '" ++ locale ++ "' is not a known CLDR locale; no display name generated"
      severity := .warning }

end Problem

/-- **What no stage is prepared for**: a compile that meets it ends without a diagnostic. -/
inductive Crash where
  /-- A signature declares formatters that are not among its parameters. -/
  | undeclaredFormatters (names : List Text)
  /-- A number in a file has more digits than are converted. -/
  | integerTooLong (digits : Nat)
  /-- A whole number has more digits than are written. -/
  | integerUnwritable
  /-- The tool section of a configuration file is not a table. -/
  | toolNotTable
  /-- A whole number is beyond the range of double precision. -/
  | numberOutOfRange
  /-- A configuration file is not UTF-8. -/
  | configurationNotUtf8 (fault : Utf8.MalformedBytes)
  /-- A watched directory is a file. -/
  | watchedFile (path : Text)
  /-- A directory cannot be watched. -/
  | unwatchable (path reason : Text)
  /-- A path is needed of an option that is given blank. -/
  | blankPath
  /-- The pause between two rebuilds is given blank. -/
  | blankDebounce
  /-- The pause between two looks at a directory is given blank. -/
  | blankPollInterval
  /-- The form of diagnostics is given blank. -/
  | blankFormat
deriving DecidableEq

/-- The greatest number of digits that is converted to a whole number, or that one is written
with. -/
def Crash.digitLimit : Nat := 4300

/-- The wording of a crash. -/
def Crash.message : Crash → Text
  | .undeclaredFormatters names =>
    "Formatter names must be parameters, got undeclared: " ++ Text.shownList names
  | .integerTooLong digits =>
    "Exceeds the limit (" ++ Numeral.ofNat digitLimit ++
      " digits) for integer string conversion: value has " ++ Numeral.ofNat digits ++
      " digits; use sys.set_int_max_str_digits() to increase the limit"
  | .integerUnwritable =>
    "Exceeds the limit (" ++ Numeral.ofNat digitLimit ++
      " digits) for integer string conversion; use sys.set_int_max_str_digits() to increase the limit"
  | .toolNotTable => "'tool' is not a table"
  | .numberOutOfRange => "int too large to convert to float"
  | .configurationNotUtf8 fault => fault.message
  | .watchedFile path => "[Errno 20] Not a directory: " ++ Text.shown path
  | .unwatchable path reason => reason ++ ": " ++ Text.shown path
  | .blankPath => "expected str, bytes or os.PathLike object, not list"
  | .blankDebounce => "'<' not supported between instances of 'list' and 'int'"
  | .blankPollInterval => "'<=' not supported between instances of 'list' and 'int'"
  | .blankFormat => "[] is not a valid OutputFormat"

namespace Numeral

/-- An integer has no more digits than are written. -/
def Writable (n : Int) : Prop := (Nat.toDigits 10 n.natAbs).length ≤ Crash.digitLimit

instance (n : Int) : Decidable (Writable n) := Nat.decLe _ _

/-- **An integer written in decimal**, unless it has too many digits. -/
def write (n : Int) : Except Crash Text :=
  if Writable n then .ok (ofInt n) else .error .integerUnwritable

end Numeral

/-- How a stage ends when it does not succeed. -/
inductive Fault where
  /-- A failure that is reported. -/
  | problem (p : Problem)
  /-- A failure that nothing catches. -/
  | crash (c : Crash)
deriving DecidableEq

end Phrasebook
