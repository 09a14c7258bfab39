import Phrasebook.Artifact.Modules
import Phrasebook.Locale.Name

/-! # From documents to modules

The part of a compile that touches no file: the documents are checked and merged, and the modules
are laid out. -/

namespace Phrasebook.Compile

/-- The checks on the documents before they are merged: there is one, and there is one of the
default locale. -/
def checkDocuments (documents : List Document) (defaultLocale source : Text) :
    Except Problem Unit :=
  let locales := documents.map (·.locale)
  if documents.isEmpty then .error (.noDocuments source)
  else if locales.contains defaultLocale then .ok ()
  else .error (.defaultLocaleMissing defaultLocale locales)

/-- The names of some locales, with the notices about those that are not known. -/
def localeNames (selfNames : Locale.SelfNames) (locales : List Text) :
    Report Fault (OrderedMap Text Text) :=
  ⟨Locale.unknownNotices selfNames locales, .ok (Locale.displayNames selfNames locales)⟩

/-- What is called the source of documents that come from no directory. -/
def usualSource : Text := "<documents>"

/-- **The modules of some documents.** Without names of locales at hand their self-names are
used. -/
def generate (selfNames : Locale.SelfNames) (compiler : Compiler) (documents : List Document)
    (defaultLocale : Text) (moduleAlias : Given Text := Modules.usualAlias)
    (names? : Option (OrderedMap Text Text) := none) (source : Text := usualSource) :
    Report Fault Modules := do
  .ofExcept ((checkDocuments documents defaultLocale source).mapError Fault.problem)
  let schema ← Catalogue.merge compiler documents
  let names ← match names? with
    | some names => pure names
    | none => localeNames selfNames schema.locales
  Modules.emit schema defaultLocale moduleAlias names

end Phrasebook.Compile
