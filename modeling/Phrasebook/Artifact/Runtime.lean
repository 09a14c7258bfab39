import Phrasebook.Artifact.View
import Phrasebook.Script.Value

/-! # The objects of the runtime module

An interior node becomes a frozen object. Its nested objects are plain properties; its leaves are
defined through `Object.defineProperties`, so that they are computed anew when the locale changes.
A leaf becomes a call of `reactive` with its key and the script of each locale.

Among the snippets the script of each locale is hoisted: it is declared as a constant at the top of
the module and referred to by its name. -/

namespace Phrasebook.Runtime

/-- What a walk over some children of a node gives. -/
structure Walk where
  /-- The properties that hold nested objects. -/
  nested : List (Code.PropertyName × Fragment) := []
  /-- The properties that hold texts or snippets. -/
  reactive : List (Code.PropertyName × Fragment) := []
  /-- The entries of the table of accessors. -/
  table : List Fragment := []
  /-- The declarations of hoisted scripts. -/
  declarations : List Fragment := []

/-- The name of a hoisted script. -/
def snippetName (number : Nat) : Text := "snippet_" ++ Numeral.ofNat number

/-- The declaration of a hoisted script. -/
def declaration (number : Nat) (script : Text) : Fragment :=
  Code.concat [Fragment.plain "const ", Fragment.plain (snippetName number), Fragment.plain " = ",
    Fragment.plain script, Fragment.plain ";"]

/-- The declarations of the scripts of a key, numbered from a number on. -/
def declarations (next : Nat) (e : Entry) : List Fragment :=
  (e.fragments.zipIdx next).map fun (localized, number) => declaration number localized.2

/-- The script of each locale of a key: the text itself, or the name of the hoisted script. -/
def localized (showing : Showing) (next : Nat) (e : Entry) : List (Code.PropertyName × Fragment) :=
  match showing with
  | .translations => e.expressions.map fun (locale, script) => (.text locale, .plain script)
  | .snippets =>
    (e.fragments.zipIdx next).map fun ((locale, _), number) =>
      (.text locale, .plain (snippetName number))

/-- The script of a leaf. -/
def leafScript (showing : Showing) (next : Nat) (e : Entry) : Code :=
  Code.call (Fragment.plain "reactive") [Fragment.plain e.key.quoted,
    Code.object (localized showing next e)]

/-- The entry of a leaf in the table of accessors. -/
def tableEntry (e : Entry) : Fragment :=
  Code.concat [Fragment.plain "[", Fragment.plain e.key.quoted, Fragment.plain ", (t) => t",
    Fragment.plain e.path.accessor, Fragment.plain "]"]

/-- The object of a node whose children a walk has visited. -/
def Walk.object (w : Walk) : Code :=
  let nested := Code.object w.nested
  match w.reactive with
  | [] => Code.call (Fragment.plain "Object.freeze") [nested]
  | _ =>
    Code.call (Fragment.plain "Object.freeze")
      [Code.call (Fragment.plain "Object.defineProperties") [nested, Code.object w.reactive]]

/-- **The walk over some children of a node**; the number is that of the next hoisted script. -/
def walkChildren (c : Catalogue) (showing : Showing) (next : Nat) :
    List (Segment × Outline) → Walk
  | [] => {}
  | (segment, .leaf path) :: rest =>
    match c.entry? path with
    | none => walkChildren c showing next rest
    | some e =>
      let declared := if showing = .snippets then declarations next e else []
      let others := walkChildren c showing (next + declared.length) rest
      { others with
        reactive :=
          (.text segment.toText, .code (leafScript showing next e)) :: others.reactive
        table := tableEntry e :: others.table
        declarations := declared ++ others.declarations }
  | (segment, .interior _ children) :: rest =>
    let inner := walkChildren c showing next children
    let others := walkChildren c showing (next + inner.declarations.length) rest
    { nested := (.text segment.toText, .code inner.object) :: others.nested
      reactive := others.reactive
      table := inner.table ++ others.table
      declarations := inner.declarations ++ others.declarations }

/-- **The walk over the whole schema.** -/
def walk (c : Catalogue) (showing : Showing) : Walk :=
  walkChildren c showing 0 (c.view showing).children

end Phrasebook.Runtime
