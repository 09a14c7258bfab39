import Phrasebook.Artifact.View

/-! # The types of the declaration module

An interior node becomes an object type with read-only properties. The type of a leaf names the
parameters of its key in the order of their names, each with the type of its kind. -/

namespace Phrasebook.Declarations

/-- What a walk over some children of a node gives. -/
structure Walk where
  /-- The properties of the node. -/
  properties : List (Code.PropertyName × Fragment) := []
  /-- The entries of the table of parameters. -/
  table : List Fragment := []

/-- Whether a parameter is declared without quotes: its name, or its name before a line feed at the
end, is an identifier. -/
def isBare (name : Text) : Bool :=
  Template.isName name ||
    (name.getLast? = some CodePoint.lf && Template.isName name.dropLast)

/-- The name of a parameter as the name of a property. -/
def propertyName (name : Text) : Text := if isBare name then name else name.quoted

/-- The type of a parameter. -/
def parameterType (showing : Showing) (isFormatter : Bool) : Text :=
  match showing, isFormatter with
  | .translations, false => "Param"
  | .translations, true => "FormatFn"
  | .snippets, false => "SnippetParam"
  | .snippets, true => "SnippetFormatFn"

/-- **The type of the parameters of a key.** -/
def parameters (showing : Showing) (s : Signature) : Code :=
  let field (p : Parameter) : Fragment :=
    Code.concat [Fragment.plain (propertyName p.name), Fragment.plain ": ",
      Fragment.plain (parameterType showing p.isFormatter)]
  Code.concat [Fragment.plain [CodePoint.openBrace, CodePoint.space],
    Code.join (Fragment.plain ", ") (s.parameters.map field),
    Fragment.plain [CodePoint.space, CodePoint.closeBrace]]

/-- The type of a leaf. -/
def leafType (showing : Showing) (s : Signature) : Fragment :=
  match showing, s.isEmpty with
  | .translations, true => .plain "string"
  | .translations, false =>
    Code.concat [Fragment.plain "(params: ", parameters showing s, Fragment.plain ") => string"]
  | .snippets, true => .plain "Snippet<[]>"
  | .snippets, false =>
    Code.concat [Fragment.plain "Snippet<[params: ", parameters showing s, Fragment.plain "]>"]

/-- The entry of a leaf in the table of parameters. -/
def tableEntry (showing : Showing) (e : Entry) : Fragment :=
  if e.signature.isEmpty then
    Code.concat [Fragment.plain e.key.quoted, Fragment.plain ": []"]
  else
    Code.concat [Fragment.plain e.key.quoted, Fragment.plain ": [params: ",
      parameters showing e.signature, Fragment.plain "]"]

/-- The declared name of a property. -/
def readonly (segment : Segment) : Code.PropertyName :=
  .raw (Fragment.plain ("readonly " ++ segment.toText.quoted))

/-- The type of a node whose children a walk has visited. -/
def Walk.type (w : Walk) : Code := Code.object w.properties

/-- **The walk over some children of a node.** -/
def walkChildren (c : Catalogue) (showing : Showing) : List (Segment × Outline) → Walk
  | [] => {}
  | (segment, .leaf path) :: rest =>
    let others := walkChildren c showing rest
    match c.entry? path with
    | none => others
    | some e =>
      { properties := (readonly segment, leafType showing e.signature) :: others.properties
        table := tableEntry showing e :: others.table }
  | (segment, .interior _ children) :: rest =>
    let inner := walkChildren c showing children
    let others := walkChildren c showing rest
    { properties := (readonly segment, .code inner.type) :: others.properties
      table := inner.table ++ others.table }

/-- **The walk over the whole schema.** -/
def walk (c : Catalogue) (showing : Showing) : Walk :=
  walkChildren c showing (c.view showing).children

end Phrasebook.Declarations
