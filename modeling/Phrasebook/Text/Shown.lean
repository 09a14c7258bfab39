import Phrasebook.Text.Numeral
import Phrasebook.Text.Printable

/-! # Text shown in messages

A message shows a text between quotation marks with everything unprintable escaped, so that it
stays on one line and its ends are visible. -/

namespace Phrasebook.Text

/-- One code point between quotation marks of the given kind. -/
def shownPoint (quote c : CodePoint) : Text :=
  if c = quote || c = CodePoint.backslash then [CodePoint.backslash, c]
  else if c = CodePoint.lf then "\\n"
  else if c = CodePoint.cr then "\\r"
  else if c = CodePoint.tab then "\\t"
  else if c.isPrintable then [c]
  else if c.val < 0x100 then "\\x" ++ Numeral.hex 2 c.val
  else if c.val < 0x10000 then "\\u" ++ Numeral.hex 4 c.val
  else "\\U" ++ Numeral.hex 8 c.val

/-- The quotation mark around a shown text: a single one, unless the text holds that one and no
double one. -/
def shownQuote (t : Text) : CodePoint :=
  if t.contains CodePoint.singleQuote && !t.contains CodePoint.doubleQuote then
    CodePoint.doubleQuote
  else CodePoint.singleQuote

/-- **A text as messages show it**: quoted, with unprintable code points escaped. -/
def shown (t : Text) : Text :=
  [shownQuote t] ++ t.flatMap (shownPoint (shownQuote t)) ++ [shownQuote t]

/-- Several texts as messages show them, in brackets. -/
def shownList (names : List Text) : Text := "[" ++ join ", " (names.map shown) ++ "]"

/-- A path of names as messages show it, in parentheses; a single name is followed by a comma. -/
def shownTuple (names : List Text) : Text :=
  match names with
  | [name] => "(" ++ shown name ++ ",)"
  | _ => "(" ++ join ", " (names.map shown) ++ ")"

end Phrasebook.Text
