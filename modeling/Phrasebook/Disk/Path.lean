import Phrasebook.Text.Basic

/-! # Paths

A path names a place below the root of the disk or below the working directory. It is kept as the
list of its parts: empty parts and parts that are a single point are dropped when it is read, while
a part of two points stays, since it leads up from wherever the parts before it lead. -/

namespace Phrasebook

/-- Where a path starts. -/
inductive PathStart where
  /-- At the working directory. -/
  | here
  /-- At the root. -/
  | root
  /-- At the root, written with two slashes. -/
  | doubleRoot
deriving DecidableEq

/-- The text of a start. -/
def PathStart.toText : PathStart → Text
  | here => []
  | root => "/"
  | doubleRoot => "//"

/-- The place of a start among the starts. -/
def PathStart.rank : PathStart → Nat
  | here => 0
  | root => 1
  | doubleRoot => 2

theorem PathStart.rank_injective {a b : PathStart} (h : a.rank = b.rank) : a = b := by
  cases a <;> cases b <;> simp_all [rank]

/-- **A path**, as its start and its parts. -/
structure DiskPath where
  start : PathStart := .here
  parts : List Text := []
deriving DecidableEq

namespace DiskPath

/-- The slash, which separates parts. -/
def slash : CodePoint := CodePoint.ofChar '/'

/-- The part that leads nowhere. -/
def stay : Text := "."

/-- The part that leads up. -/
def up : Text := ".."

/-- Where the path of a text starts: exactly two slashes in front are a start of their own. -/
def startOf (t : Text) : PathStart :=
  match (t.takeWhile (· = slash)).length with
  | 0 => .here
  | 2 => .doubleRoot
  | _ => .root

/-- **The path of a text.** -/
def ofText (t : Text) : DiskPath :=
  ⟨startOf t, (Text.split slash t).filter fun part => part ≠ [] ∧ part ≠ stay⟩

/-- **The text of a path**; a path without parts that starts at the working directory is a point. -/
def toText (p : DiskPath) : Text :=
  if p.start = .here ∧ p.parts = [] then stay
  else p.start.toText ++ Text.join [slash] p.parts

/-- Whether the path starts at the root. -/
def isAbsolute (p : DiskPath) : Bool := p.start ≠ .here

/-- A path that starts at the end of another, unless it starts at the root. -/
def join (base p : DiskPath) : DiskPath :=
  if p.isAbsolute then p else ⟨base.start, base.parts ++ p.parts⟩

/-- The path with one more part. -/
def child (p : DiskPath) (part : Text) : DiskPath := ⟨p.start, p.parts ++ [part]⟩

/-- The path without its last part; a path without parts stays as it is. -/
def parent (p : DiskPath) : DiskPath := ⟨p.start, p.parts.dropLast⟩

/-- The last part, empty if there is none. -/
def name (p : DiskPath) : Text := p.parts.getLast?.getD []

/-- The length of the ending of a name from its last point on. A point that begins or ends the name
begins no ending. -/
def suffixLength (name : Text) : Nat :=
  let tail := name.reverse.takeWhile (· ≠ CodePoint.ofChar '.')
  if tail.length + 1 < name.length ∧ tail ≠ [] then tail.length + 1 else 0

/-- The ending of the last part from its last point on. -/
def suffix (p : DiskPath) : Text := p.name.drop (p.name.length - suffixLength p.name)

/-- The last part without its ending. -/
def stem (p : DiskPath) : Text := p.name.take (p.name.length - suffixLength p.name)

/-- The pieces of the text of a path between slashes. -/
def components (p : DiskPath) : List Text := Text.split slash p.toText

/-- Paths are ordered piece by piece, and the pieces by code point. Paths of one text, which only
parts with slashes in them can have, are ordered by their starts and then by their parts. -/
instance : LT DiskPath :=
  ⟨fun p q => p.components < q.components ∨
    p.components = q.components ∧
      (p.start.rank < q.start.rank ∨ p.start.rank = q.start.rank ∧ p.parts < q.parts)⟩

instance : DecidableLT DiskPath := fun p q =>
  inferInstanceAs (Decidable (p.components < q.components ∨
    p.components = q.components ∧
      (p.start.rank < q.start.rank ∨ p.start.rank = q.start.rank ∧ p.parts < q.parts)))

theorem lt_iff {p q : DiskPath} :
    p < q ↔ p.components < q.components ∨
      p.components = q.components ∧
        (p.start.rank < q.start.rank ∨ p.start.rank = q.start.rank ∧ p.parts < q.parts) := Iff.rfl

instance : Trans (· < · : DiskPath → DiskPath → Prop) (· < · : DiskPath → DiskPath → Prop)
    (· < · : DiskPath → DiskPath → Prop) :=
  ⟨fun {p q r} hpq hqr => by
    rw [lt_iff] at *
    rcases hpq with h | ⟨h, hp⟩ <;> rcases hqr with g | ⟨g, hq⟩
    · exact .inl (List.lt_trans h g)
    · exact .inl (g ▸ h)
    · exact .inl (h ▸ g)
    · refine .inr ⟨h.trans g, ?_⟩
      rcases hp with hp | ⟨hp, hparts⟩ <;> rcases hq with hq | ⟨hq, hparts'⟩
      · exact .inl (Nat.lt_trans hp hq)
      · exact .inl (hq ▸ hp)
      · exact .inl (hp ▸ hq)
      · exact .inr ⟨hp.trans hq, List.lt_trans hparts hparts'⟩⟩

instance : Std.Trichotomous (· < · : DiskPath → DiskPath → Prop) :=
  ⟨fun p q h g => by
    rw [lt_iff, not_or, not_and, not_or, not_and] at h g
    have hcomponents : p.components = q.components :=
      Std.Trichotomous.trichotomous _ _ h.1 g.1
    obtain ⟨hrank, hparts⟩ := h.2 hcomponents
    obtain ⟨hrank', hparts'⟩ := g.2 hcomponents.symm
    have hstart : p.start.rank = q.start.rank :=
      Nat.le_antisymm (Nat.not_lt.mp hrank') (Nat.not_lt.mp hrank)
    have hsame : p.parts = q.parts :=
      Std.Trichotomous.trichotomous _ _ (hparts hstart) (hparts' hstart.symm)
    cases p
    cases q
    cases hsame
    cases PathStart.rank_injective hstart
    rfl⟩

/-- One part followed in a list of parts: up removes the last one. -/
def follow (parts : List Text) (part : Text) : List Text :=
  if part = up then parts.dropLast else parts ++ [part]

/-- The path from the root that a path leads to when it is followed part by part from a working
directory. -/
def resolve (workingDirectory p : DiskPath) : DiskPath :=
  let joined := workingDirectory.join p
  ⟨.root, joined.parts.foldl follow []⟩

end DiskPath

end Phrasebook
