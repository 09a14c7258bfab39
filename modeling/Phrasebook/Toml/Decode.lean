import Phrasebook.Toml.Scalar
import Phrasebook.Toml.Table

/-! # Decoding TOML

A TOML text is a list of statements, one a line: a pair of key and value, the header of a table, or
the header of a table that is appended to an array. -/

namespace Phrasebook.Toml

/-! ### Keys -/

/-- A code point of a key without quotation marks. -/
def isBareKey (c : CodePoint) : Bool :=
  c.isLetter || c.isDigit || c = CodePoint.ofChar '-' || c = underscore

/-- One name of a key. -/
def readName (t : Text) : Except Fault (Text × Text) :=
  match t with
  | [] => refuse .invalidKey t
  | c :: rest =>
    if isBareKey c then .ok (t.takeWhile isBareKey, t.dropWhile isBareKey)
    else if c = CodePoint.singleQuote then literalString [CodePoint.singleQuote] isControl rest
    else if c = CodePoint.doubleQuote then basicString false .inside rest
    else refuse .invalidKey t

/-- The names of a key with points between them, at most so many, and the text after the blanks that
follow. -/
def readNames : Nat → Text → Except Fault (Key × Text)
  | 0, t => refuse .invalidKey t
  | names + 1, t => do
    let (name, t) ← readName t
    match skipBlanks t with
    | c :: rest =>
      if c = CodePoint.ofChar '.' then
        let (others, t) ← readNames names (skipBlanks rest)
        return (name :: others, t)
      else return ([name], c :: rest)
    | [] => return ([name], [])

/-- A key. -/
def readKey (t : Text) : Except Fault (Key × Text) := readNames (t.length + 1) t

/-! ### Values -/

mutual

/-- **A value**, with room for so many steps into and along the values it holds. -/
def readValue : Nat → Text → Except Fault (Datum Foreign × Text)
  | 0, t => refuse .invalidValue t
  | room + 1, t =>
    if t.head? = some (CodePoint.ofChar '[') then do
      let t ← skipLayout false (t.drop 1)
      match after? (CodePoint.ofChar ']') t with
      | some t => return (.list [], t)
      | none =>
        let (items, t) ← readItems room t
        return (.list items, t)
    else if t.head? = some CodePoint.openBrace then
      let t := skipBlanks (t.drop 1)
      match after? CodePoint.closeBrace t with
      | some t => .ok (.map [], t)
      | none => (readPairs room {} [] t).map fun (entries, t) => (.map entries, t)
    else readScalar t

/-- The items of an array up to and with its end. -/
def readItems : Nat → Text → Except Fault (List (Datum Foreign) × Text)
  | 0, t => refuse .unclosedArray t
  | room + 1, t => do
    let (item, t) ← readValue room t
    let t ← skipLayout false t
    match after? (CodePoint.ofChar ']') t, after? (CodePoint.ofChar ',') t with
    | some t, _ => return ([item], t)
    | none, none => refuse .unclosedArray t
    | none, some t =>
      let t ← skipLayout false t
      match after? (CodePoint.ofChar ']') t with
      | some t => return ([item], t)
      | none =>
        let (others, t) ← readItems room t
        return (item :: others, t)

/-- The pairs of an inline table up to and with its end, added to the entries before them. -/
def readPairs : Nat → Marks → Entries → Text → Except Fault (Entries × Text)
  | 0, _, _, t => refuse .unclosedInlineTable t
  | room + 1, marks, entries, t => do
    let (key, t) ← readKey t
    match after? (CodePoint.ofChar '=') t with
    | none => refuse .expectedEquals t
    | some t =>
      let (value, t) ← readValue room (skipBlanks t)
      if marks.isFrozen key then refuse (.immutableNamespace key) t
      else
        match putNew false (.duplicateInlineKey (splitKey key).2) key value entries with
        | .error reason => refuse reason t
        | .ok entries =>
          let t := skipBlanks t
          match after? CodePoint.closeBrace t, after? (CodePoint.ofChar ',') t with
          | some t, _ => return (entries, t)
          | none, none => refuse .unclosedInlineTable t
          | none, some t => readPairs room (marks.freeze key value) entries (skipBlanks t)

end

/-- A key, an equals sign and a value. -/
def readPair (t : Text) : Except Fault ((Key × Datum Foreign) × Text) := do
  let (key, t) ← readKey t
  match after? (CodePoint.ofChar '=') t with
  | none => refuse .expectedEquals t
  | some t =>
    let t := skipBlanks t
    let (value, t) ← readValue (2 * t.length + 1) t
    return ((key, value), t)

/-! ### Statements -/

/-- What the statements so far have made. -/
structure State where
  entries : Entries := []
  marks : Marks := {}
  /-- The tables that dotted keys have opened since the last header. They may be extended up to the
  next one. -/
  pending : List Key := []
  /-- The table that pairs are added to. -/
  header : Key := []

namespace State

/-- The state at a header: the tables that dotted keys have opened are closed. -/
def atHeader (s : State) : State :=
  { s with marks := s.pending.foldl Marks.declare s.marks, pending := [] }

/-- Opens the table of a header. -/
def openTable (s : State) (key : Key) : Except Reason State :=
  if s.marks.isDeclared key || s.marks.isFrozen key then .error (.declaredTwice key)
  else
    (Toml.openTable key s.entries).map fun entries =>
      { s with entries, marks := s.marks.declare key, header := key }

/-- Appends the table of a header to its array. -/
def appendTable (s : State) (key : Key) : Except Reason State :=
  if s.marks.isFrozen key then .error (.immutableNamespace key)
  else
    (Toml.appendTable key s.entries).map fun entries =>
      { s with entries, marks := (s.marks.release key).declare key, header := key }

/-- Adds a pair to the table of the last header. -/
def addPair (s : State) (key : Key) (value : Datum Foreign) : Except Reason State :=
  let path := s.header ++ key
  let opened := (List.range (key.length - 1)).map fun n => s.header ++ key.take (n + 1)
  match opened.find? s.marks.isDeclared with
  | some table => .error (.redefinedNamespace table)
  | none =>
    if s.marks.isFrozen path.dropLast then .error (.immutableNamespace path.dropLast)
    else
      (putNew true .overwrittenValue path value s.entries).map fun entries =>
        { s with
          entries
          marks := s.marks.freeze path value
          pending := s.pending ++ opened }

end State

/-- The rest of a header after its brackets: the key, the step it means, the closing brackets. -/
def readHeader (s : State) (step : State → Key → Except Reason State) (closing : Text)
    (unclosed : Reason) (t : Text) : Except Fault (State × Text) := do
  let (key, t) ← readKey (skipBlanks t)
  match step s key with
  | .error reason => refuse reason t
  | .ok s =>
    match Text.dropBeginning? closing t with
    | none => refuse unclosed t
    | some t => return (s, t)

/-- What opens the header of a table. -/
def openBracket : CodePoint := CodePoint.ofChar '['

/-- A statement at the front of a text, which is not empty. -/
def readStatement (s : State) (t : Text) : Except Fault (State × Text) :=
  if t.head? = some openBracket then
    if (t.drop 1).head? = some openBracket then
      readHeader s.atHeader State.appendTable "]]" .unclosedArrayHeader (t.drop 2)
    else readHeader s.atHeader State.openTable "]" .unclosedTableHeader (t.drop 1)
  else if t.head?.any fun c => isBareKey c || c = CodePoint.singleQuote ||
      c = CodePoint.doubleQuote then do
    let ((key, value), t) ← readPair t
    match s.addPair key value with
    | .error reason => refuse reason t
    | .ok s => return (s, t)
  else if t.head? = some commentMark then .ok (s, t)
  else refuse .invalidStatement t

/-- The statements of a text, at most so many lines of them. -/
def readStatements : Nat → State → Text → Except Fault State
  | 0, s, _ => .ok s
  | lines + 1, s, t =>
    match skipBlanks t with
    | [] => .ok s
    | c :: rest =>
      if c = CodePoint.lf then readStatements lines s rest
      else do
        let (s, t) ← readStatement s (c :: rest)
        match ← skipComment (skipBlanks t) with
        | [] => .ok s
        | c :: rest =>
          if c = CodePoint.lf then readStatements lines s rest
          else refuse .expectedLineEnd (c :: rest)

/-- **The table of a TOML text.** -/
def decode (t : Text) : Except Fault Entries :=
  let t := unifyLineEnds t
  (readStatements (t.length + 1) {} t).map (·.entries)

end Phrasebook.Toml
