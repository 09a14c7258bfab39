import Phrasebook.Schema.Merger

/-! # What a module shows of a schema

A module gives every key twice: as the text itself, and, if the key has formatters, as a snippet,
a list of parts. The view of a schema holds the leaves that are shown in one of these ways, and the
interior nodes above them. -/

namespace Phrasebook

/-- How keys are given. -/
inductive Showing where
  /-- Every key, as its text. -/
  | translations
  /-- The keys with formatters, as lists of parts. -/
  | snippets
deriving DecidableEq

/-- What has been found out about interior nodes, by their paths: whether a wanted leaf lies
below. -/
abbrev Findings := OrderedMap KeyPath Bool

namespace Outline

mutual

/-- Whether a leaf with one of the wanted paths lies in the outline. What is found out about an
interior node is remembered under its path and not looked for again. -/
def includes (wanted : KeyPath → Bool) (known : Findings) : Outline → Bool × Findings
  | .leaf path => (wanted path, known)
  | .interior path children =>
    match known.get? path with
    | some answer => (answer, known)
    | none =>
      let (answer, known) := includesAny wanted known children
      (answer, known.put path answer)

/-- Whether a leaf with one of the wanted paths lies below some children. The first child with one
settles it. -/
def includesAny (wanted : KeyPath → Bool) (known : Findings) :
    List (Segment × Outline) → Bool × Findings
  | [] => (false, known)
  | (_, child) :: rest =>
    let (answer, known) := includes wanted known child
    if answer then (true, known) else includesAny wanted known rest

end

mutual

/-- The outline without the children in which no wanted leaf lies. -/
def shown (wanted : KeyPath → Bool) (known : Findings) : Outline → Outline × Findings
  | .leaf path => (.leaf path, known)
  | .interior path children =>
    let (children, known) := shownChildren wanted known children
    (.interior path children, known)

/-- The children in which a wanted leaf lies, without their children in which none does. -/
def shownChildren (wanted : KeyPath → Bool) (known : Findings) :
    List (Segment × Outline) → List (Segment × Outline) × Findings
  | [] => ([], known)
  | (segment, child) :: rest =>
    let (answer, known) := includes wanted known child
    if answer then
      let (child, known) := shown wanted known child
      let (others, known) := shownChildren wanted known rest
      ((segment, child) :: others, known)
    else shownChildren wanted known rest

end

/-- The children of the root. -/
def children : Outline → List (Segment × Outline)
  | .leaf _ => []
  | .interior _ children => children

end Outline

namespace Catalogue

/-- What is known of the key of a path. -/
def entry? (c : Catalogue) (path : KeyPath) : Option Entry := c.entries.get? path.key

/-- Whether the key of a path has formatters. -/
def hasFormatters (c : Catalogue) (path : KeyPath) : Bool :=
  ((c.entry? path).map fun e => e.signature.hasFormatters).getD false

/-- Whether the key of a path is shown. -/
def isShown (c : Catalogue) (showing : Showing) (path : KeyPath) : Bool :=
  match showing with
  | .translations => true
  | .snippets => c.hasFormatters path

/-- **The part of the tree that is shown.** -/
def view (c : Catalogue) (showing : Showing) : Outline :=
  match showing with
  | .translations => c.arena.outline
  | .snippets => (c.arena.outline.shown (c.isShown .snippets) []).1

end Catalogue

end Phrasebook
