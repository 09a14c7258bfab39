import Phrasebook.Text.Shown

/-! # Pieces of script text

Generated script is put together from fragments: plain texts, or code made of pieces. Combinators
work piece by piece, so a line may begin in one piece and end in another; `Fragment.render` joins
the pieces. -/

namespace Phrasebook

/-- A sequence of pieces of script text. -/
structure Code where
  pieces : List Text
deriving DecidableEq

/-- **What script is put together from**: a plain text or code. -/
inductive Fragment where
  | plain (t : Text)
  | code (c : Code)
deriving DecidableEq

instance : Coe Text Fragment := ⟨.plain⟩

instance : Coe Code Fragment := ⟨.code⟩

namespace Fragment

/-- The pieces of a fragment. A plain text is one piece, an empty one none. -/
def pieces : Fragment → List Text
  | plain t => if t.isEmpty then [] else [t]
  | code c => c.pieces

/-- **The text of a fragment.** -/
def render (f : Fragment) : Text :=
  match f with
  | plain t => t
  | code c => c.pieces.flatten

end Fragment

namespace Code

/-- The text of code. -/
def render (c : Code) : Text := c.pieces.flatten

/-- Code as a message shows it: its text, cut after forty code points. -/
def shown (c : Code) : Text :=
  let text := c.render
  "Code(" ++ Text.shown (if 40 < text.length then text.take 37 ++ "..." else text) ++ ")"

/-! ### Composition -/

/-- One level of indentation. -/
def indentUnit : Text := "  "

/-- The indentation of a level; a negative level has none. -/
def padding (level : Int) : Text := (List.replicate level.toNat indentUnit).flatten

/-- The parts one after the other. -/
def concat (parts : List Fragment) : Code := ⟨parts.flatMap Fragment.pieces⟩

/-- A text with the padding after each line feed. -/
def padAfterBreaks (pad t : Text) : Text :=
  t.flatMap fun c => if c = CodePoint.lf then c :: pad else [c]

/-- The part with the indentation of a level after each line feed. -/
def indent (part : Fragment) (level : Int := 1) : Code :=
  ⟨part.pieces.map (padAfterBreaks (padding level))⟩

/-- Some lines of one piece, padded unless they are empty or go on with a line begun before, and
whether the next piece begins a line. The flag `broken` says that a line feed stands before the
lines. -/
def padLines (pad : Text) (broken atLineStart : Bool) : List Text → List Text × Bool
  | [] => ([], atLineStart)
  | line :: rest =>
    let atLineStart := broken || atLineStart
    let breaks : List Text := if broken then [[CodePoint.lf]] else []
    let padded : List Text :=
      if line.isEmpty then [] else if atLineStart then [pad ++ line] else [line]
    let (others, last) := padLines pad true (atLineStart && line.isEmpty) rest
    (breaks ++ padded ++ others, last)

/-- The pieces with each line padded unless it is empty; the flag says whether a line begins. -/
def padPieces (pad : Text) (atLineStart : Bool) : List Text → List Text
  | [] => []
  | piece :: rest =>
    let (padded, last) := padLines pad false atLineStart (Text.split CodePoint.lf piece)
    padded ++ padPieces pad last rest

/-- The part with the indentation of a level before each line that is not empty, the first line
included. -/
def indentLines (part : Fragment) (level : Int := 1) : Code :=
  ⟨padPieces (padding level) true part.pieces⟩

/-- The parts with a separator between consecutive ones. -/
def join (separator : Fragment) (parts : List Fragment) : Code :=
  ⟨((parts.map Fragment.pieces).intersperse separator.pieces).flatten⟩

/-- The parts as lines. -/
def lines (parts : List Fragment) : Code := join (Fragment.plain [CodePoint.lf]) parts

/-- A call of a function by its name. -/
def call (callee : Fragment) (arguments : List Fragment) : Code :=
  concat [Fragment.plain callee.render, Fragment.plain "(", join (Fragment.plain ", ") arguments,
    Fragment.plain ")"]

end Code

end Phrasebook
