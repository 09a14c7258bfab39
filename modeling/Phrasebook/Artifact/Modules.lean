import Phrasebook.Artifact.Declarations
import Phrasebook.Artifact.Runtime
import Phrasebook.Given

/-! # The generated modules

The data module exports the locales, the functions that create the objects of texts and snippets,
and the accessors of all keys. The declaration module gives the types of all that. -/

namespace Phrasebook

/-- **The text of both modules.** -/
structure Modules where
  dataModule : Text
  typesModule : Text
  locales : List Text
  defaultLocale : Text
deriving DecidableEq

namespace Modules

/-- The first line of a generated module. -/
def header : Text := "// Generated by langkit. Do not edit."

/-- The name under which the declaration module is published where none is asked for. -/
def usualAlias : Text := "$lang"

/-- A blank line. -/
def blankLine : Text := [CodePoint.lf, CodePoint.lf]

/-- An exported constant. -/
def exported (name : Text) (value : Fragment) : Fragment :=
  Code.concat [Fragment.plain ("export const " ++ name ++ " = "), value, Fragment.plain ";"]

/-- An array literal of texts on one line. -/
def textArray (items : List Text) : Code :=
  Code.concat [Fragment.plain "[",
    Code.join (Fragment.plain ", ") (items.map fun t => Fragment.plain t.quoted),
    Fragment.plain "]"]

/-- A function that creates an object. -/
def factory (name : Text) (body : Code) : Fragment :=
  Code.concat [Fragment.plain ("export function " ++ name ++ "(reactive) "),
    Fragment.plain (CodePoint.openBrace :: CodePoint.lf :: "  return "), Code.indent body,
    Fragment.plain [CodePoint.ofChar ';', CodePoint.lf, CodePoint.closeBrace]]

/-- A map of the given entries. -/
def mapLiteral (entries : List Fragment) : Code :=
  match entries with
  | [] => Code.concat [Fragment.plain "new Map()"]
  | _ =>
    Code.concat [Fragment.plain ("new Map([" ++ Code.firstBreak),
      Code.join (Fragment.plain Code.entryBreak) entries,
      Fragment.plain (CodePoint.lf :: "])")]

/-- An object type of the given members. -/
def typeLiteral (entries : List Fragment) : Code :=
  match entries with
  | [] => Code.concat [Fragment.plain [CodePoint.openBrace, CodePoint.closeBrace]]
  | _ =>
    Code.concat [Fragment.plain (CodePoint.openBrace :: Code.firstBreak),
      Code.join (Fragment.plain Code.entryBreak) entries,
      Fragment.plain [CodePoint.lf, CodePoint.closeBrace]]

/-- The display names of the locales; a locale without one names itself. -/
def localeNames (c : Catalogue) (names : OrderedMap Text Text) : Code :=
  Code.object (c.locales.map fun locale =>
    (.text locale, .plain ((names.get? locale).getD locale).quoted))

/-- **The data module.** -/
def dataCode (c : Catalogue) (defaultLocale : Text) (names : OrderedMap Text Text) : Code :=
  let translations := Runtime.walk c .translations
  let snippets := Runtime.walk c .snippets
  let hoisted : List Fragment :=
    if snippets.declarations.isEmpty then [] else [.code (Code.lines snippets.declarations)]
  let sections : List Fragment :=
    [.plain header,
      exported "availableLocales" (textArray c.locales),
      exported "defaultLocale" (Fragment.plain defaultLocale.quoted),
      exported "localeNames" (localeNames c names)] ++
    hoisted ++
    [factory "createTranslations" translations.object,
      factory "createSnippets" snippets.object,
      exported "keyAccessors" (mapLiteral translations.table),
      exported "snippetAccessors" (mapLiteral snippets.table)]
  Code.concat [Code.join (Fragment.plain blankLine) sections, Fragment.plain [CodePoint.lf]]

/-- The type of the locales. -/
def localeType (locales : List Text) : Fragment :=
  match locales with
  | [] => .plain "never"
  | _ => Code.join (Fragment.plain " | ") (locales.map fun t => Fragment.plain t.quoted)

/-- An exported type. -/
def exportedType (name : Text) (type : Fragment) : Fragment :=
  Code.concat [Fragment.plain ("export type " ++ name ++ " = "), type, Fragment.plain ";"]

/-- The lines inside the declaration module. -/
def typesBody (c : Catalogue) (defaultLocale : Text) : Code :=
  let translations := Declarations.walk c .translations
  let snippets := Declarations.walk c .snippets
  Code.lines
    [.plain "type Param = string | number | \x7b toString(): string \x7d;",
      .plain "type FormatFn = (value: string) => string;",
      .plain "type SnippetPart = unknown;",
      .plain "type SnippetParam = Param | SnippetPart;",
      .plain "type SnippetFormatFn = (children: SnippetPart[]) => SnippetPart;",
      .plain "type Snippet<P extends unknown[]> = (...args: P) => SnippetPart[];",
      .plain "",
      exportedType "AvailableLocale" (localeType c.locales),
      .plain "export const availableLocales: AvailableLocale[];",
      Code.concat [Fragment.plain "export const defaultLocale: ",
        Fragment.plain defaultLocale.quoted, Fragment.plain ";"],
      .plain "export const localeNames: Readonly<Record<AvailableLocale, string>>;",
      .plain "",
      exportedType "Translations" translations.type,
      exportedType "Snippets" snippets.type,
      exportedType "KeyMapping" (typeLiteral translations.table),
      exportedType "SnippetMapping" (typeLiteral snippets.table),
      .plain "export type TranslationKeys = keyof KeyMapping;",
      .plain "export type SnippetKeys = keyof SnippetMapping;",
      .plain "type Reactive<K> = (",
      .plain "  key: K,",
      .plain "  values: Partial<Record<AvailableLocale, unknown>>",
      .plain ") => PropertyDescriptor;",
      .plain "",
      .plain "export function createTranslations(reactive: Reactive<TranslationKeys>): Translations;",
      .plain "export function createSnippets(reactive: Reactive<SnippetKeys>): Snippets;",
      .plain "export const keyAccessors: Map<TranslationKeys, (t: Translations) => unknown>;",
      .plain "export const snippetAccessors: Map<SnippetKeys, (s: Snippets) => unknown>;"]

/-- The alias of the declaration module as the module declares it. A blank alias is written as an
empty list. -/
def declaredAlias : Given Text → Text
  | .value t => t.quoted
  | .blank => "[]"

/-- **The declaration module**, published under an alias. -/
def typesCode (c : Catalogue) (defaultLocale : Text) (moduleAlias : Given Text) : Code :=
  Code.concat [Fragment.plain header, Fragment.plain (blankLine ++ "declare module "),
    Fragment.plain (declaredAlias moduleAlias),
    Fragment.plain [CodePoint.space, CodePoint.openBrace, CodePoint.lf],
    Code.indentLines (typesBody c defaultLocale),
    Fragment.plain [CodePoint.lf, CodePoint.closeBrace, CodePoint.lf]]

/-- **Both modules of a schema.** -/
def emit (c : Catalogue) (defaultLocale : Text) (moduleAlias : Given Text)
    (names : OrderedMap Text Text) : Report Fault Modules :=
  let dataModule := (dataCode c defaultLocale names).render
  let typesModule := (typesCode c defaultLocale moduleAlias).render
  ⟨[.modulesEmitted dataModule.length typesModule.length],
    .ok { dataModule, typesModule, locales := c.locales, defaultLocale }⟩

end Modules

end Phrasebook
