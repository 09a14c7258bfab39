import Phrasebook.Document.Comments
import Phrasebook.Json.Decode
import Phrasebook.Text.Cursor

/-! # Documents

A document holds the texts of one locale as a tree. It is written as JSON with comments; a failure
to decode it names the line and the column at which something else was expected. -/

namespace Phrasebook

/-- **The texts of one locale.** -/
structure Document where
  locale : Text
  tree : Datum Foreign
  /-- Where the document comes from. -/
  source : Text := "<memory>"

namespace Document

/-- The tree of a text with comments, with the source that failures name. -/
def decode {α : Type} (text source : Text) : Except Fault (Datum α) :=
  let blanked := Comments.blank text
  match Json.decode blanked with
  | .ok tree => .ok tree
  | .error (.integerTooLong digits) => .error (.crash (.integerTooLong digits))
  | .error (.malformed reason offset) =>
    let (line, column) := (Cursor.mk blanked offset).lineColumn
    .error (.problem (.documentInvalid source reason.message line column))

end Document

end Phrasebook
