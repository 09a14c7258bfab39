import Phrasebook.Diagnostic.Format
import Phrasebook.Diagnostic.Notice
import Phrasebook.Number.Typed
import Phrasebook.Settings.Options
import Phrasebook.Text.Digit

/-! # Arguments of the command line

The first argument that is no flag names a command; the flags after it are those of the command. A
flag is given by its name, or by the beginning of a name of two hyphens that no other flag shares;
its value follows as an argument of its own or after an equals sign. Names of one hyphen and one
letter may be written together, with or without an equals sign after the first of them.

Two hyphens alone separate the flags from values that follow. Even after an equals sign they are no
value: they leave the flag blank.

What each argument is read as is settled for all of them before any takes effect. -/

namespace Phrasebook.CommandLine

/-- The commands. -/
inductive Command where
  /-- Compiles once. -/
  | build
  /-- Compiles whenever a document changes. -/
  | watch
deriving DecidableEq

/-- The name of a command. -/
def Command.name : Command → Text
  | build => "build"
  | watch => "watch"

/-- The command of a given name. -/
def Command.ofName? (name : Text) : Option Command := [build, watch].find? (·.name = name)

/-! ### Flags -/

/-- The flags. -/
inductive Flag where
  | help
  | config
  | languageDirectory
  | dataPath
  | typesPath
  | defaultLocale
  | moduleAlias
  | format
  | verbose
  | quiet
  | debounce
  | pollInterval
deriving DecidableEq

namespace Flag

/-- The names of a flag. -/
def names : Flag → List Text
  | help => ["-h", "--help"]
  | config => ["--config"]
  | languageDirectory => ["--lang-dir"]
  | dataPath => ["--data-out"]
  | typesPath => ["--types-out"]
  | defaultLocale => ["--default-locale"]
  | moduleAlias => ["--alias"]
  | format => ["--format"]
  | verbose => ["--verbose", "-v"]
  | quiet => ["--quiet", "-q"]
  | debounce => ["--debounce"]
  | pollInterval => ["--poll-interval"]

/-- Whether a flag has a value. -/
def hasValue : Flag → Bool
  | help | verbose | quiet => false
  | config | languageDirectory | dataPath | typesPath | defaultLocale | moduleAlias | format
  | debounce | pollInterval => true

end Flag

/-- The flags of every command. -/
def commonFlags : List Flag :=
  [.help, .config, .languageDirectory, .dataPath, .typesPath, .defaultLocale, .moduleAlias,
    .format, .verbose, .quiet]

/-- The flags of a command. -/
def Command.flags : Command → List Flag
  | build => commonFlags
  | watch => commonFlags ++ [.debounce, .pollInterval]

/-! ### Reading single arguments -/

/-- What is attached to a flag. -/
inductive Attachment where
  | nothing
  /-- What follows a long name and an equals sign. -/
  | value (t : Text)
  /-- What follows the letter of a short name, be it after an equals sign. -/
  | letters (t : Text)
deriving DecidableEq

/-- What an argument is read as. -/
inductive Word where
  | value
  /-- Two hyphens, after which everything is a value. -/
  | separator
  | flag (f : Flag) (attachment : Attachment)
  /-- It looks like a flag but is none. -/
  | unknown
deriving DecidableEq

/-- How the reading of arguments ends if there is nothing to run. -/
inductive Usage where
  /-- Help is asked for. -/
  | help
  /-- The arguments are wrong. -/
  | wrong
deriving DecidableEq

/-- The hyphen, with which flags begin. -/
def hyphen : CodePoint := CodePoint.ofChar '-'

/-- The equals sign between a flag and its value. -/
def equalsSign : CodePoint := CodePoint.ofChar '='

/-- The flag of exactly the given name. -/
def named? (flags : List Flag) (name : Text) : Option Flag :=
  flags.find? fun f => f.names.contains name

/-- The flags of which a name begins with the given text, once for each such name. -/
def namedFrom (flags : List Flag) (beginning : Text) : List Flag :=
  flags.flatMap fun f => (f.names.filter fun name => name.startsWith beginning).map fun _ => f

/-- Whether a text begins with two hyphens, as long names do. -/
def isLong (t : Text) : Bool := t.startsWith [hyphen, hyphen]

/-- What stands after the equals sign behind a name. -/
def attached (name t : Text) : Attachment := if isLong name then .value t else .letters t

/-- An argument as its name and what is attached to it by its first equals sign. -/
def cutValue (argument : Text) : Text × Attachment :=
  match Text.cut? equalsSign argument with
  | some (name, t) => (name, attached name t)
  | none => (argument, .nothing)

/-- A text without the line feed at its end. -/
def chomp (t : Text) : Text := if t.getLast? = some CodePoint.lf then t.dropLast else t

/-- Whether an argument looks like a negative number, be it with a line feed after it. -/
def isNegativeNumber (argument : Text) : Bool :=
  match argument with
  | [] => false
  | c :: rest =>
    let rest := chomp rest
    let whole := rest.takeWhile (·.isDecimal)
    let tail := rest.dropWhile (·.isDecimal)
    let fraction := tail.drop 1
    decide (c = hyphen) &&
      (!whole.isEmpty && tail.isEmpty ||
        decide (tail.head? = some (CodePoint.ofChar '.')) && !fraction.isEmpty &&
          fraction.all (·.isDecimal))

/-- The flags that an argument may mean that is no full name: with two hyphens those whose names
begin with it, with one hyphen the one of its first letter. -/
def guesses (flags : List Flag) (argument : Text) : List Word :=
  if isLong argument then
    let (name, attachment) := cutValue argument
    (namedFrom flags name).map (Word.flag · attachment)
  else
    (named? flags (argument.take 2)).toList.map fun f =>
      .flag f (.letters (argument.drop 2))

/-- What an argument is read as that begins with a hyphen. -/
def readHyphened (flags : List Flag) (argument : Text) : Except Usage Word :=
  let (name, attachment) := cutValue argument
  match named? flags argument, named? flags name with
  | some f, _ => .ok (.flag f .nothing)
  | none, some f => .ok (.flag f attachment)
  | none, none =>
    match guesses flags argument with
    | [word] => .ok word
    | _ :: _ :: _ => .error .wrong
    | [] =>
      if isNegativeNumber argument || argument.contains CodePoint.space then .ok .value
      else .ok .unknown

/-- What an argument is read as. -/
def readWord (flags : List Flag) (argument : Text) : Except Usage Word :=
  if argument.length ≤ 1 ∨ argument.head? ≠ some hyphen then .ok .value
  else readHyphened flags argument

/-- **What each argument is read as.** -/
def readWords (flags : List Flag) : List Text → Except Usage (List (Word × Text))
  | [] => .ok []
  | argument :: rest =>
    if argument = [hyphen, hyphen] then
      .ok ((.separator, argument) :: rest.map fun value => (.value, value))
    else
      match readWord flags argument with
      | .error usage => .error usage
      | .ok word => (readWords flags rest).map ((word, argument) :: ·)

/-! ### Taking effect -/

/-- The pause between two looks at the directory where none is given: half a second. -/
def usualPollInterval : Binary64 := Binary64.ofQuotient false 1 2

/-- **What the arguments say.** -/
structure Arguments where
  command : Command
  /-- The configuration file to read. -/
  config : Option Text := none
  /-- The options given. -/
  draft : Draft := {}
  format : Given OutputFormat := OutputFormat.rust
  verbose : Bool := false
  quiet : Bool := false
  /-- The pause between two looks at the directory, in seconds. -/
  pollInterval : Given Binary64 := usualPollInterval
  /-- Whether some argument means nothing. -/
  hasExtra : Bool := false

namespace Arguments

/-- The least level of the notices that are shown. -/
def level (a : Arguments) : Level :=
  if a.verbose then .debug else if a.quiet then .error else .info

/-- A flag without a value takes effect. -/
def raise (a : Arguments) : Flag → Except Usage Arguments
  | .help => .error .help
  | .verbose => if a.quiet then .error .wrong else .ok { a with verbose := true }
  | .quiet => if a.verbose then .error .wrong else .ok { a with quiet := true }
  | _ => .error .wrong

/-- Some flags without a value take effect. -/
def raiseAll (a : Arguments) : List Flag → Except Usage Arguments
  | [] => .ok a
  | f :: rest =>
    match a.raise f with
    | .ok a => raiseAll a rest
    | .error usage => .error usage

/-- A flag takes effect with what is given of its value. For the configuration file and for the
default locale a blank is the same as an empty value. -/
def set (a : Arguments) (f : Flag) (given : Given Text) : Except Usage Arguments :=
  match f with
  | .config => .ok { a with config := some (given.getD []) }
  | .languageDirectory => .ok { a with draft.languageDirectory := some given }
  | .dataPath => .ok { a with draft.dataPath := some given }
  | .typesPath => .ok { a with draft.typesPath := some given }
  | .defaultLocale => .ok { a with draft.defaultLocale := some (given.getD []) }
  | .moduleAlias => .ok { a with draft.moduleAlias := some given }
  | .format =>
    match given.read? OutputFormat.ofName? with
    | some format => .ok { a with format }
    | none => .error .wrong
  | .debounce =>
    match given.read? Decimal.typed? with
    | some x => .ok { a with draft.debounce := some x }
    | none => .error .wrong
  | .pollInterval =>
    match given.read? Decimal.typed? with
    | some pollInterval => .ok { a with pollInterval }
    | none => .error .wrong
  | .help | .verbose | .quiet => .error .wrong

/-- The flags of some letters written together, of which there is at least one and each names a
flag. -/
def letterFlags (flags : List Flag) (letters : Text) : Except Usage (List Flag) :=
  match letters.mapM fun letter => named? flags [hyphen, letter] with
  | none | some [] => .error .wrong
  | some named => .ok named

/-- What is given by a text that is attached to a flag. -/
def given (t : Text) : Given Text := if t = [hyphen, hyphen] then .blank else .value t

/-- A word takes effect that is not the value of the flag before it. The answer names the flag
whose value must follow, if it is such a flag. -/
def apply (flags : List Flag) (a : Arguments) : Word → Except Usage (Arguments × Option Flag)
  | .value | .separator | .unknown => .ok ({ a with hasExtra := true }, none)
  | .flag f attachment =>
    match f.hasValue, attachment with
    | true, .nothing => .ok (a, some f)
    | true, .value t | true, .letters t => (a.set f (given t)).map (·, none)
    | false, .nothing => (a.raise f).map (·, none)
    | false, .value _ => .error .wrong
    | false, .letters letters =>
      match letterFlags flags letters with
      | .error usage => .error usage
      | .ok others => (a.raiseAll (f :: others)).map (·, none)

/-- **The words take effect** one after the other; the flag whose value must come next is given. -/
def take (flags : List Flag) (a : Arguments) (awaiting : Option Flag) :
    List (Word × Text) → Except Usage Arguments
  | [] => if awaiting.isSome then .error .wrong else .ok a
  | (word, text) :: rest =>
    match awaiting with
    | some f =>
      if word = .value then
        match a.set f (.value text) with
        | .ok a => take flags a none rest
        | .error usage => .error usage
      else .error .wrong
    | none =>
      match apply flags a word with
      | .ok (a, next) => take flags a next rest
      | .error usage => .error usage

/-- What the arguments after a command say. -/
def ofCommand (command : Command) (hasExtra : Bool) (arguments : List Text) :
    Except Usage Arguments := do
  let words ← readWords command.flags arguments
  let a ← take command.flags { command, hasExtra } none words
  if a.hasExtra then .error .wrong else .ok a

/-- What the arguments say, of which some before these mean nothing if the flag says so. -/
def parseFrom (hasExtra : Bool) : List Text → Except Usage Arguments
  | [] => .error .wrong
  | argument :: rest =>
    if argument = [hyphen, hyphen] then .error .wrong
    else
      match readWord [.help] argument with
      | .error usage => .error usage
      | .ok .unknown => parseFrom true rest
      | .ok .separator => .error .wrong
      | .ok (.flag f .nothing) => if f = .help then .error .help else .error .wrong
      | .ok (.flag _ (.value _)) => .error .wrong
      | .ok (.flag _ (.letters letters)) =>
        match letterFlags [.help] letters with
        | .error usage => .error usage
        | .ok _ => .error .help
      | .ok .value =>
        match Command.ofName? argument with
        | none => .error .wrong
        | some command => ofCommand command hasExtra rest

/-- **What a command line says.** -/
def parse (arguments : List Text) : Except Usage Arguments := parseFrom false arguments

end Arguments

end Phrasebook.CommandLine
