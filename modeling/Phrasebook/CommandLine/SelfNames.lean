import Phrasebook.Locale.Name

/-! # The self-names that the command knows

The command has no repository of locale data at hand but a table of some self-names. -/

namespace Phrasebook.CommandLine

/-- The self-names in the table, by normalized tag. -/
def knownSelfNames : List (String × String) :=
  [("en", "English"),
    ("fr", "français"),
    ("de", "Deutsch"),
    ("es", "español"),
    ("it", "italiano"),
    ("ja", "日本語"),
    ("ko", "한국어"),
    ("zh", "中文"),
    ("ru", "русский"),
    ("ar", "العربية"),
    ("he", "עברית"),
    ("pt", "português"),
    ("nl", "Nederlands"),
    ("sv", "svenska"),
    ("pl", "polski"),
    ("uk", "українська"),
    ("tr", "Türkçe"),
    ("hi", "हिन्दी"),
    ("th", "ไทย"),
    ("vi", "Tiếng Việt"),
    ("lv", "latviešu"),
    ("nb", "norsk bokmål"),
    ("en_US", "English (United States)"),
    ("en_GB", "English (United Kingdom)"),
    ("pt_BR", "português (Brasil)"),
    ("pt_PT", "português (Portugal)"),
    ("fr_CA", "français (Canada)"),
    ("de_AT", "Deutsch (Österreich)"),
    ("es_419", "español (Latinoamérica)"),
    ("zh_Hans", "中文 (简体)"),
    ("zh_Hant", "中文 (繁體)"),
    ("zh_Hans_CN", "中文 (简体, 中国)"),
    ("zh_TW", "中文 (繁體, 台灣)"),
    ("zh_CN", "中文 (简体, 中国)"),
    ("sr_Latn", "srpski (latinica)"),
    ("sr_Cyrl", "српски (ћирилица)")]

/-- A normalized tag without the character encoding that may follow a point. -/
def withoutEncoding (tag : Text) : Text := tag.takeWhile (· ≠ CodePoint.ofChar '.')

/-- **The self-names that the command knows.** -/
def selfNames : Locale.SelfNames :=
  let table : OrderedMap Text Text :=
    knownSelfNames.map fun (tag, name) => (Text.ofString tag, Text.ofString name)
  fun tag => table.get? (withoutEncoding tag)

end Phrasebook.CommandLine
