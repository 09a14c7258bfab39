import Phrasebook.Diagnostic.Problem

/-! # Signatures

The signature of a template names its parameters and tells which of them are formatters. All
locales must agree on the signature of a key, so that one typed interface serves them all. -/

namespace Phrasebook

/-- A parameter: a value, or a formatter that is applied to text. -/
structure Parameter where
  name : Text
  isFormatter : Bool
deriving DecidableEq

/-- **The parameters of a template**, in the order of their names. Two signatures are equal if they
have the same values and the same formatters. -/
structure Signature where
  parameters : List Parameter
  sorted : parameters.Pairwise fun p q => p.name < q.name
deriving DecidableEq

namespace Signature

/-- The signature without parameters. -/
def empty : Signature := ⟨[], .nil⟩

/-- The signature with the given parameters, of which the given formatters are marked. -/
def ofNames (params formatters : List Text) : Signature :=
  ⟨(Sorted.ofList params).map fun name => ⟨name, formatters.contains name⟩,
    List.pairwise_map.mpr (Sorted.pairwise_ofList params)⟩

/-- The formatters that are not among the parameters, in order. -/
def undeclared (params formatters : List Text) : List Text :=
  (Sorted.ofList formatters).filter fun name => !params.contains name

/-- The signature with the given parameters and formatters; every formatter must be a parameter. -/
def of (params formatters : List Text) : Except Crash Signature :=
  match undeclared params formatters with
  | [] => .ok (ofNames params formatters)
  | names => .error (.undeclaredFormatters names)

/-- The names of the parameters, in order. -/
def names (s : Signature) : List Text := s.parameters.map (·.name)

/-- Whether there are no parameters. -/
def isEmpty (s : Signature) : Bool := s.parameters.isEmpty

/-- Whether some parameter is a formatter. -/
def hasFormatters (s : Signature) : Bool := s.parameters.any (·.isFormatter)

/-- Whether a name is that of a formatter. -/
def isFormatter (s : Signature) (name : Text) : Bool := s.parameters.contains ⟨name, true⟩

/-- A parameter as descriptions show it. -/
def describeParameter (p : Parameter) : Text :=
  if p.isFormatter then "fn(" ++ p.name ++ ")" else p.name

/-- **The description of a signature** in messages. -/
def describe (s : Signature) : Text :=
  [CodePoint.openBrace] ++ Text.join ", " (s.parameters.map describeParameter) ++
    [CodePoint.closeBrace]

/-- The names of the formatters, in order. -/
def formatters (s : Signature) : List Text :=
  (s.parameters.filter (·.isFormatter)).map (·.name)

/-- Whether two locales with these signatures can share an interface. -/
def isCompatible (a b : Signature) : Bool := a.names = b.names && a.formatters = b.formatters

end Signature

end Phrasebook
