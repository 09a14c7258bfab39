import Phrasebook.Document.Visit
import Phrasebook.Schema.Arena
import Phrasebook.Template.Compiler

/-! # Merging documents

Documents are folded one after the other into one schema. The first text at a path defines its key:
it sets the signature that the other locales must share. A text where another path has a container,
a second path with the same key, a different signature and a malformed template are refused, and
with them the whole merge. -/

namespace Phrasebook

/-- What a merge knows of one key. -/
structure Entry where
  path : KeyPath
  /-- The signature set by the first locale. -/
  signature : Signature
  /-- The compiled text of each locale. -/
  expressions : OrderedMap Text Text := []
  /-- The compiled parts of each locale, where the signature has formatters. -/
  fragments : OrderedMap Text Text := []
deriving DecidableEq

namespace Entry

/-- The key of the entry. -/
def key (e : Entry) : Text := e.path.key

/-- The entry with the compiled text of a locale. -/
def add (e : Entry) (locale : Text) (compiled : CompiledTemplate) : Entry :=
  { e with
    expressions := e.expressions.put locale compiled.expression
    fragments :=
      match e.signature.hasFormatters, compiled.fragment with
      | true, some fragment => e.fragments.put locale fragment
      | _, _ => e.fragments }

end Entry

/-- **The merged schema**: the tree of keys, what is known of each key, and the locales in the order
of their documents. -/
structure Catalogue where
  arena : Arena := {}
  entries : OrderedMap Text Entry := []
  locales : List Text := []
deriving DecidableEq

namespace Catalogue

/-- Whether a locale has a text for a key. -/
def translates (c : Catalogue) (locale key : Text) : Bool :=
  ((c.entries.get? key).bind fun e => e.expressions.get? locale).isSome

/-- The keys for which a locale has no text, in the order of the tree. -/
def missing (c : Catalogue) (locale : Text) : List Text :=
  c.arena.keys.filter fun key => !c.translates locale key

/-- The notices about the keys that each locale leaves untranslated. -/
def missingNotices (c : Catalogue) : List Notice :=
  c.locales.flatMap fun locale =>
    match c.missing locale with
    | [] => []
    | first :: rest => [.keysMissing locale (rest.length + 1) c.entries.length first]

/-! ### Adding a text -/

/-- Goes down to the node at which a path continues, from the node at the end of another path,
creating the interior nodes on the way. A leaf on the way has the given path. -/
def descend (a : Arena) (id : Nat) (done : List Segment) :
    List Segment → Except KeyPath (Arena × Nat)
  | [] => .ok (a, id)
  | segment :: rest =>
    let path : KeyPath := ⟨done ++ [segment]⟩
    match a.child? id segment with
    | none =>
      let (extended, child) := a.addChild id segment (.interior path [])
      descend extended child path.segments rest
    | some child =>
      match a.node? child with
      | some (.leaf _) => .error path
      | _ => descend a child path.segments rest

/-- Compiles the text of a key in a locale. -/
def compileText (compiler : Compiler) (key locale value : Text) : Report Fault CompiledTemplate :=
  match compiler value with
  | .ok compiled => ⟨[.templateCompiled compiled.signature.describe], .ok compiled⟩
  | .error (.template f) => .fail (.problem (f.problem key locale))
  | .error (.crash c) => .fail (.crash c)

/-- Defines a new key below a node. -/
def define (compiler : Compiler) (c : Catalogue) (arena : Arena) (parent : Nat) (segment : Segment)
    (path : KeyPath) (locale value : Text) : Report Fault Catalogue :=
  match c.entries.get? path.key with
  | some _ => .fail (.problem (.keyCollision path.key locale))
  | none => do
    let compiled ← compileText compiler path.key locale value
    let entry := Entry.add { path, signature := compiled.signature } locale compiled
    .tell (.newKey path.key compiled.signature.describe locale)
    return { c with
      arena := (arena.addChild parent segment (.leaf path)).1
      entries := c.entries.put path.key entry }

/-- Adds the text of one more locale to a key. -/
def extend (compiler : Compiler) (c : Catalogue) (arena : Arena) (entry : Entry)
    (locale value : Text) : Report Fault Catalogue := do
  let compiled ← compileText compiler entry.key locale value
  if entry.signature.isCompatible compiled.signature then
    return { c with arena, entries := c.entries.put entry.key (entry.add locale compiled) }
  else
    .fail (.problem (.signatureMismatch entry.key locale entry.signature.describe
      compiled.signature.describe))

/-- **Adds the text at a path of the document of a locale.** -/
def addText (compiler : Compiler) (c : Catalogue) (path : KeyPath) (locale value : Text) :
    Report Fault Catalogue :=
  match path.segments.getLast? with
  | none => .fail (.problem (.rootMismatch locale))
  | some segment =>
    match descend c.arena Arena.root [] path.parent.segments with
    | .error leaf => .fail (.problem (.structureMismatch leaf.key locale))
    | .ok (arena, parent) =>
      match (arena.child? parent segment).bind arena.node? with
      | none => define compiler c arena parent segment path locale value
      | some (.interior ..) => .fail (.problem (.structureMismatch path.key locale))
      | some (.leaf _) =>
        match c.entries.get? path.key with
        | some entry => extend compiler c arena entry locale value
        | none => define compiler c arena parent segment path locale value

/-! ### Adding documents -/

/-- Adds what a walk through the document of a locale meets; the number counts the texts. -/
def addVisits (compiler : Compiler) (locale : Text) (c : Catalogue) (count : Nat) :
    List Visit → Report Fault (Catalogue × Nat)
  | [] => pure (c, count)
  | .text path value :: rest => do
    let extended ← c.addText compiler path locale value
    addVisits compiler locale extended (count + 1) rest
  | .skipped path typeName :: rest => do
    .tell (.valueSkipped path.key locale typeName)
    addVisits compiler locale c count rest
  | .refused problem :: _ => .fail (.problem problem)

/-- **Adds a document**, walked under a guard. -/
def addDocument (compiler : Compiler) (guard : NestingGuard) (c : Catalogue) (document : Document) :
    Report Fault Catalogue :=
  if document.tree.isContainer then do
    let started := { c with locales := c.locales ++ [document.locale] }
    let (extended, count) ←
      addVisits compiler document.locale started 0 (document.tree.visits guard .root)
    .tell (.documentMerged count document.locale)
    return extended
  else .fail (.problem (.rootMismatch document.locale))

/-- Adds documents one after the other. -/
def addDocuments (compiler : Compiler) (guard : NestingGuard) (c : Catalogue) :
    List Document → Report Fault Catalogue
  | [] => pure c
  | document :: rest => do
    let extended ← addDocument compiler guard c document
    addDocuments compiler guard extended rest

/-- **The schema of a list of documents**, with the notices about untranslated keys. -/
def merge (compiler : Compiler) (documents : List Document) : Report Fault Catalogue := do
  let merged ← addDocuments compiler (.ofLimit NestingGuard.usualLimit) {} documents
  ⟨merged.missingNotices, .ok merged⟩

end Catalogue

end Phrasebook
