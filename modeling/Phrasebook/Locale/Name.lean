import Phrasebook.Diagnostic.Notice
import Phrasebook.OrderedMap

/-! # Names of locales

A language picker shows each locale under its name in its own language. The names come from a
repository of locale data, which is looked up by normalized tag; a tag that has no name there names
itself. -/

namespace Phrasebook.Locale

/-- The underscore, which separates the parts of a normalized tag. -/
def underscore : CodePoint := CodePoint.ofChar '_'

/-- A tag with underscores between its parts, where it may have hyphens. -/
def normalize (tag : Text) : Text :=
  tag.map fun c => if c = CodePoint.ofChar '-' then underscore else c

/-- **A repository of locale data**: the self-name of the locale of a normalized tag, if the locale
is known. It is empty where the locale has none. -/
abbrev SelfNames : Type := Text → Option Text

/-- The self-names that a table has. -/
def SelfNames.ofTable (table : OrderedMap Text Text) : SelfNames := fun tag => table.get? tag

variable (selfNames : SelfNames)

/-- The self-name of the locale of a tag, if the locale is known. -/
def displayName? (tag : Text) : Option Text := selfNames (normalize tag)

/-- The notices about those of the tags that no locale is known for. -/
def unknownNotices (tags : List Text) : List Notice :=
  (tags.filter fun tag => (displayName? selfNames tag).isNone).map Notice.localeUnknown

/-- The name of a tag. It names itself if the locale is not known, and also if the locale has no
self-name. -/
def displayName (tag : Text) : Text :=
  match displayName? selfNames tag with
  | none | some [] => tag
  | some name => name

/-- **The name of each tag.** -/
def displayNames (tags : List Text) : OrderedMap Text Text :=
  OrderedMap.ofList (tags.map fun tag => (tag, displayName selfNames tag))

end Phrasebook.Locale
