import Phrasebook.Text.Basic

/-! # Comments in documents

Documents may hold `//` and `/* */` comments outside of string literals. They are blanked out: each
of their code points becomes a space, line breaks excepted, so that every position of the blanked
text is the same position of the document. -/

namespace Phrasebook.Comments

/-- Where a reader of a document stands. -/
inductive Place where
  /-- Between comments and string literals. -/
  | outside
  /-- Inside a string literal. -/
  | inLiteral
  /-- Inside a string literal, after a backslash. -/
  | escaped
  /-- In a comment that ends with its line. -/
  | inLine
  /-- Before the star that opens a block comment. -/
  | opening
  /-- In a block comment. -/
  | inBlock
  /-- Before the slash that closes a block comment. -/
  | closing
deriving DecidableEq

/-- The slash, which opens and closes comments. -/
def slash : CodePoint := CodePoint.ofChar '/'

/-- The star, which opens and closes block comments. -/
def star : CodePoint := CodePoint.ofChar '*'

/-- Whether a code point ends a line. -/
def isLineBreak (c : CodePoint) : Bool := c = CodePoint.lf || c = CodePoint.cr

/-- What stands in place of a code point of a comment. -/
def blankPoint (c : CodePoint) : CodePoint := if isLineBreak c then c else CodePoint.space

/-- Blanks the comments of the rest of a document, read from a place on. -/
def blankFrom (place : Place) : Text → Text
  | [] => []
  | c :: rest =>
    match place with
    | .outside =>
      if c = CodePoint.doubleQuote then c :: blankFrom .inLiteral rest
      else if c = slash && rest.head? = some slash then blankPoint c :: blankFrom .inLine rest
      else if c = slash && rest.head? = some star then blankPoint c :: blankFrom .opening rest
      else c :: blankFrom .outside rest
    | .inLiteral =>
      if c = CodePoint.backslash then c :: blankFrom .escaped rest
      else if c = CodePoint.doubleQuote then c :: blankFrom .outside rest
      else c :: blankFrom .inLiteral rest
    | .escaped => c :: blankFrom .inLiteral rest
    | .inLine =>
      if isLineBreak c then c :: blankFrom .outside rest else blankPoint c :: blankFrom .inLine rest
    | .opening => blankPoint c :: blankFrom .inBlock rest
    | .inBlock =>
      if c = star && rest.head? = some slash then blankPoint c :: blankFrom .closing rest
      else blankPoint c :: blankFrom .inBlock rest
    | .closing => blankPoint c :: blankFrom .outside rest

/-- **The document with its comments blanked out.** -/
def blank (document : Text) : Text := blankFrom .outside document

end Phrasebook.Comments
