import Phrasebook.Text.Numeral

/-! # Quoted text

A string literal between double quotation marks: quotes, backslashes and control characters are
escaped. The generated modules escape lone surrogates too, so that they can be stored as UTF-8. -/

namespace Phrasebook.Text

/-- One code point inside a string literal. -/
def quotedPoint (c : CodePoint) : Text :=
  if c = CodePoint.doubleQuote then "\\\""
  else if c = CodePoint.backslash then "\\\\"
  else if c = CodePoint.lf then "\\n"
  else if c = CodePoint.cr then "\\r"
  else if c = CodePoint.tab then "\\t"
  else if c.val = 0x08 then "\\b"
  else if c.val = 0x0C then "\\f"
  else if c.val < 0x20 then Numeral.escape c
  else [c]

/-- A text as a string literal; lone surrogates stand for themselves. -/
def literal (t : Text) : Text :=
  [CodePoint.doubleQuote] ++ t.flatMap quotedPoint ++ [CodePoint.doubleQuote]

/-- Every surrogate of a text written as an escape. -/
def spellSurrogates (t : Text) : Text :=
  t.flatMap fun c => if c.isSurrogate then Numeral.escape c else [c]

/-- **A text as a string literal of a generated module.** -/
def quoted (t : Text) : Text := spellSurrogates (literal t)

end Phrasebook.Text
