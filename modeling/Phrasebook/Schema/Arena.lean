import Phrasebook.Document.KeyPath

/-! # The tree of keys

The union of the paths of all texts of all locales. Its nodes are kept in a list and refer to their
children by number; node `0` is the root. Nodes are only ever appended, so numbers stay valid, and
children keep the order in which they were first seen.

`Arena.outline` is the same tree written as a nested value; whatever walks the whole tree walks the
outline. -/

namespace Phrasebook

/-- A node: the place of a text, or of texts further down. -/
inductive Node where
  | leaf (path : KeyPath)
  | interior (path : KeyPath) (children : OrderedMap Segment Nat)
deriving DecidableEq

namespace Node

/-- The path of a node. -/
def path : Node → KeyPath
  | leaf path => path
  | interior path _ => path

/-- The numbers of the children of a node, under their names. -/
def children : Node → OrderedMap Segment Nat
  | leaf _ => []
  | interior _ children => children

/-- The node with one child more. -/
def withChild (segment : Segment) (child : Nat) : Node → Node
  | leaf path => leaf path
  | interior path children => interior path (children.put segment child)

end Node

/-- **The tree of keys**, as a list of nodes of which the first is the root. -/
structure Arena where
  nodes : List Node := [.interior .root []]
deriving DecidableEq

/-- The tree of keys as a nested value. -/
inductive Outline where
  | leaf (path : KeyPath)
  | interior (path : KeyPath) (children : List (Segment × Outline))

namespace Arena

/-- The number of the root. -/
def root : Nat := 0

/-- The number of nodes. -/
def size (a : Arena) : Nat := a.nodes.length

/-- The node of a number. -/
def node? (a : Arena) (id : Nat) : Option Node := a.nodes[id]?

/-- The number of the child of a node under a name. -/
def child? (a : Arena) (id : Nat) (segment : Segment) : Option Nat :=
  (a.node? id).bind fun node => node.children.get? segment

/-- Appends a node as the child of another and gives its number. -/
def addChild (a : Arena) (parent : Nat) (segment : Segment) (child : Node) : Arena × Nat :=
  (⟨a.nodes.modify parent (Node.withChild segment a.size) ++ [child]⟩, a.size)

/-- The number of the node that the segments lead to from another. -/
def follow? (a : Arena) (id : Nat) : List Segment → Option Nat
  | [] => some id
  | segment :: rest => (a.child? id segment).bind fun child => a.follow? child rest

/-- The node at a path, if the tree has one there. -/
def find? (a : Arena) (path : KeyPath) : Option Node :=
  (a.follow? root path.segments).bind a.node?

/-- The outline below a node, down to a number of levels. A child has a greater number than its
parent, so there are fewer levels than nodes. -/
def outlineBelow (a : Arena) : Nat → Nat → Option Outline
  | 0, _ => none
  | levels + 1, id =>
    match a.node? id with
    | none => none
    | some (.leaf path) => some (.leaf path)
    | some (.interior path children) =>
      some (.interior path (children.filterMap fun child =>
        (a.outlineBelow levels child.2).map (child.1, ·)))

/-- **The tree as a nested value.** -/
def outline (a : Arena) : Outline := (a.outlineBelow a.size root).getD (.interior .root [])

end Arena

namespace Outline

mutual

/-- **The paths of the leaves**, depth first and in order. -/
def leaves : Outline → List KeyPath
  | .leaf path => [path]
  | .interior _ children => leavesOfChildren children

/-- The paths of the leaves below some children. -/
def leavesOfChildren : List (Segment × Outline) → List KeyPath
  | [] => []
  | (_, child) :: rest => leaves child ++ leavesOfChildren rest

end

end Outline

namespace Arena

/-- The paths of the leaves, depth first and in order. -/
def leaves (a : Arena) : List KeyPath := a.outline.leaves

/-- The keys of the leaves, depth first and in order. -/
def keys (a : Arena) : List Text := a.leaves.map KeyPath.key

end Arena

end Phrasebook
