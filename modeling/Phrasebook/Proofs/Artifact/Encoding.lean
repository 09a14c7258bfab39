import Mathlib.Data.List.TakeWhile
import Phrasebook.Artifact.Modules
import Phrasebook.Document.Basic
import Phrasebook.Proofs.Artifact.Points
import Phrasebook.Proofs.Artifact.Table
import Phrasebook.Proofs.Schema.Holdings

/-! # Surrogates in the generated modules

A text can be stored as UTF-8 just if it holds no surrogate (`Utf8.exists_encode_iff`). The
declaration module never holds one. The data module spells those of keys, locales, display names and
texts, but in the subscripts of an accessor the surrogates of a name stand for themselves; so it
holds none just if the names of the properties around the texts of the documents have none
(`encodable_emit_iff`), and otherwise it cannot be stored (`unencodable_emit`). -/

namespace Phrasebook

open Text (All)

/-! ### What can be stored -/

/-- **A text can be stored as UTF-8** just if it holds no surrogate. -/
theorem Utf8.exists_encode_iff {t : Text} :
    (∃ bytes, encode t = .ok bytes) ↔ ∀ c ∈ t, c.isSurrogate = false := by
  unfold encode
  cases h : t.dropWhile (!·.isSurrogate) with
  | nil =>
    have hnone := List.dropWhile_eq_nil_iff.mp h
    exact ⟨fun _ c hc => by simpa using hnone c hc, fun _ => ⟨_, rfl⟩⟩
  | cons c rest =>
    refine ⟨nofun, fun hnone => ?_⟩
    have hall : t.dropWhile (!·.isSurrogate) = [] :=
      List.dropWhile_eq_nil_iff.mpr fun c hc => by simp [hnone c hc]
    rw [hall] at h
    cases h

namespace Modules

section Lenient
variable {P : CodePoint → Prop} (hP : Lenient P)
include hP

/-! ### The data module -/

theorem all_exported {name : Text} (hname : name.all CodePoint.isRegular = true)
    {value : Fragment} : All P (exported name value).render ↔ All P value.render := by
  have hhead : All P ("export const " ++ name ++ " = ") :=
    all_append.mpr ⟨all_append.mpr ⟨hP.regular (by decide), hP.regular hname⟩,
      hP.regular (by decide)⟩
  have hend : All P ";" := hP.regular (by decide)
  refine all_concat.trans ?_
  simp only [List.forall_mem_cons, Fragment.render_plain, hhead, hend, List.not_mem_nil,
    false_implies, implies_true, true_and, and_true]

theorem all_quotedItems (items : List Text) :
    ∀ f ∈ items.map fun t => Fragment.plain t.quoted, All P f.render := by
  intro f hf
  obtain ⟨t, -, rfl⟩ := List.mem_map.mp hf
  exact hP.quoted t

theorem all_localeNames (c : Catalogue) (names : OrderedMap Text Text) :
    All P (localeNames c names).render := by
  refine hP.object fun p hp => ?_
  obtain ⟨locale, -, rfl⟩ := List.mem_map.mp hp
  exact hP.property_text locale (hP.quoted _)

theorem all_factory {name : Text} (hname : name.all CodePoint.isRegular = true) {body : Code}
    (h : All P body.render) : All P (factory name body).render := by
  have hhead : All P ("export function " ++ name ++ "(reactive) ") :=
    all_append.mpr ⟨all_append.mpr ⟨hP.regular (by decide), hP.regular hname⟩,
      hP.regular (by decide)⟩
  have hopen : All P (CodePoint.openBrace :: CodePoint.lf :: "  return ") :=
    hP.regular (by decide)
  have hclose : All P [CodePoint.ofChar ';', CodePoint.lf, CodePoint.closeBrace] :=
    hP.regular (by decide)
  refine all_concat.mpr ?_
  simp only [List.forall_mem_cons]
  exact ⟨hhead, hopen, (hP.indent (Fragment.code body) 1).mpr h, hclose, List.forall_mem_nil _⟩

theorem all_mapLiteral {entries : List Fragment} :
    All P (mapLiteral entries).render ↔ ∀ f ∈ entries, All P f.render := by
  have hopen : All P ("new Map([" ++ Code.firstBreak) := hP.regular (by decide)
  have hbreak : All P Code.entryBreak := hP.regular (by decide)
  have hclose : All P (CodePoint.lf :: "])") := hP.regular (by decide)
  cases entries with
  | nil => exact ⟨fun _ => List.forall_mem_nil _, fun _ => hP.regular (by decide)⟩
  | cons first rest =>
    rw [← all_separated hbreak]
    refine all_concat.trans ?_
    simp only [List.forall_mem_cons, Fragment.render_plain, Fragment.render_code, hopen, hclose,
      List.not_mem_nil, false_implies, implies_true, true_and, and_true]

/-- **Nothing but the tables of the data module** holds surrogates. -/
theorem all_dataCode {c : Catalogue} (hc : ∀ entry ∈ c.entries, entry.2.AllScripts P)
    (defaultLocale : Text) (names : OrderedMap Text Text) :
    All P (dataCode c defaultLocale names).render ↔
      ∀ showing, ∀ f ∈ (Runtime.walk c showing).table, All P f.render := by
  have htranslations := Runtime.all_walk hP hc .translations
  have hsnippets := Runtime.all_walk hP hc .snippets
  have hblank : All P blankLine := hP.regular (by decide)
  have hbreak : All P [CodePoint.lf] := hP.regular (by decide)
  have hheader : All P header := hP.regular (by decide)
  have hhoisted : ∀ f ∈ (if (Runtime.walk c .snippets).declarations.isEmpty then []
      else [Fragment.code (Code.lines (Runtime.walk c .snippets).declarations)]),
        All P f.render := by
    split_ifs
    · exact List.forall_mem_nil _
    · exact List.forall_mem_singleton.mpr ((all_separated hbreak).mpr hsnippets.declarations)
  have hlocales : All P (exported "availableLocales" (textArray c.locales)).render :=
    (all_exported hP (by decide)).mpr (hP.list (all_quotedItems hP c.locales))
  have hdefault : All P (exported "defaultLocale" (Fragment.plain defaultLocale.quoted)).render :=
    (all_exported hP (by decide)).mpr (hP.quoted defaultLocale)
  have hnames : All P (exported "localeNames" (localeNames c names)).render :=
    (all_exported hP (by decide)).mpr (all_localeNames hP c names)
  have htexts : All P (factory "createTranslations" (Runtime.walk c .translations).object).render :=
    all_factory hP (by decide) (htranslations.object hP)
  have hparts : All P (factory "createSnippets" (Runtime.walk c .snippets).object).render :=
    all_factory hP (by decide) (hsnippets.object hP)
  have hkeys : All P (exported "keyAccessors"
      (mapLiteral (Runtime.walk c .translations).table)).render ↔
        ∀ f ∈ (Runtime.walk c .translations).table, All P f.render :=
    (all_exported hP (by decide)).trans (all_mapLiteral hP)
  have hsnippetKeys : All P (exported "snippetAccessors"
      (mapLiteral (Runtime.walk c .snippets).table)).render ↔
        ∀ f ∈ (Runtime.walk c .snippets).table, All P f.render :=
    (all_exported hP (by decide)).trans (all_mapLiteral hP)
  have hboth : (∀ showing, ∀ f ∈ (Runtime.walk c showing).table, All P f.render) ↔
      (∀ f ∈ (Runtime.walk c .translations).table, All P f.render) ∧
        ∀ f ∈ (Runtime.walk c .snippets).table, All P f.render :=
    ⟨fun h => ⟨h _, h _⟩, fun h showing => match showing with
      | .translations => h.1
      | .snippets => h.2⟩
  rw [hboth, ← hkeys, ← hsnippetKeys]
  refine all_concat.trans ?_
  rw [List.forall_mem_cons, List.forall_mem_singleton, Fragment.render_code, all_separated hblank]
  simp only [List.forall_mem_append, List.forall_mem_cons, Fragment.render_plain, hbreak, hheader,
    hlocales, hdefault, hnames, htexts, hparts, List.not_mem_nil, false_implies, implies_true,
    true_and, and_true]
  exact and_iff_right hhoisted

/-! ### The declaration module -/

theorem all_exportedType {name : Text} (hname : name.all CodePoint.isRegular = true)
    {type : Fragment} (h : All P type.render) : All P (exportedType name type).render := by
  have hhead : All P ("export type " ++ name ++ " = ") :=
    all_append.mpr ⟨all_append.mpr ⟨hP.regular (by decide), hP.regular hname⟩,
      hP.regular (by decide)⟩
  have hend : All P ";" := hP.regular (by decide)
  refine all_concat.mpr ?_
  simp only [List.forall_mem_cons]
  exact ⟨hhead, h, hend, List.forall_mem_nil _⟩

theorem all_localeType (locales : List Text) : All P (localeType locales).render := by
  have hseparator : All P " | " := hP.regular (by decide)
  unfold localeType
  split
  · exact hP.regular (by decide)
  · exact (all_separated hseparator).mpr (all_quotedItems hP _)

theorem all_typeLiteral {entries : List Fragment} (h : ∀ f ∈ entries, All P f.render) :
    All P (typeLiteral entries).render := by
  have hopen : All P (CodePoint.openBrace :: Code.firstBreak) := hP.regular (by decide)
  have hbreak : All P Code.entryBreak := hP.regular (by decide)
  have hclose : All P [CodePoint.lf, CodePoint.closeBrace] := hP.regular (by decide)
  unfold typeLiteral
  split
  · exact hP.regular (by decide)
  · refine all_concat.mpr ?_
    simp only [List.forall_mem_cons]
    exact ⟨hopen, (all_separated hbreak).mpr h, hclose, List.forall_mem_nil _⟩

theorem all_typesBody (c : Catalogue) (defaultLocale : Text) :
    All P (typesBody c defaultLocale).render := by
  have hbreak : All P [CodePoint.lf] := hP.regular (by decide)
  have htranslations := Declarations.all_walk hP c .translations
  have hsnippets := Declarations.all_walk hP c .snippets
  have hdefault : All P (Code.concat [Fragment.plain "export const defaultLocale: ",
      Fragment.plain defaultLocale.quoted, Fragment.plain ";"]).render := by
    refine all_concat.mpr ?_
    simp only [List.forall_mem_cons]
    exact ⟨hP.ofList (by decide), hP.quoted defaultLocale, hP.ofList (by decide),
      List.forall_mem_nil _⟩
  have hlocales : All P (exportedType "AvailableLocale" (localeType c.locales)).render :=
    all_exportedType hP (by decide) (all_localeType hP c.locales)
  have htexts : All P (exportedType "Translations" (Declarations.walk c .translations).type).render :=
    all_exportedType hP (by decide) (hP.object htranslations.properties)
  have hparts : All P (exportedType "Snippets" (Declarations.walk c .snippets).type).render :=
    all_exportedType hP (by decide) (hP.object hsnippets.properties)
  have hkeys : All P (exportedType "KeyMapping"
      (typeLiteral (Declarations.walk c .translations).table)).render :=
    all_exportedType hP (by decide) (all_typeLiteral hP htranslations.table)
  have hsnippetKeys : All P (exportedType "SnippetMapping"
      (typeLiteral (Declarations.walk c .snippets).table)).render :=
    all_exportedType hP (by decide) (all_typeLiteral hP hsnippets.table)
  refine (all_separated hbreak).mpr ?_
  simp only [List.forall_mem_cons]
  exact ⟨hP.ofList (by decide), hP.ofList (by decide), hP.ofList (by decide),
    hP.ofList (by decide), hP.ofList (by decide), hP.ofList (by decide),
    hP.ofList (by decide), hlocales, hP.ofList (by decide), hdefault, hP.ofList (by decide),
    hP.ofList (by decide), htexts, hparts, hkeys, hsnippetKeys, hP.ofList (by decide),
    hP.ofList (by decide), hP.ofList (by decide), hP.ofList (by decide),
    hP.ofList (by decide), hP.ofList (by decide), hP.ofList (by decide),
    hP.ofList (by decide), hP.ofList (by decide), hP.ofList (by decide),
    hP.ofList (by decide), List.forall_mem_nil _⟩

/-- **The declaration module is regular**, whatever a schema holds. -/
theorem all_typesCode (c : Catalogue) (defaultLocale : Text) (moduleAlias : Given Text) :
    All P (typesCode c defaultLocale moduleAlias).render := by
  have hheader : All P header := hP.ofList (by decide)
  have hdeclare : All P (blankLine ++ "declare module ") := hP.regular (by decide)
  have halias : All P (declaredAlias moduleAlias) := by
    cases moduleAlias with
    | value t => exact hP.quoted t
    | blank => exact hP.regular (by decide)
  have hopen : All P [CodePoint.space, CodePoint.openBrace, CodePoint.lf] := hP.regular (by decide)
  have hlines : All P (Fragment.code (typesBody c defaultLocale)).render :=
    all_typesBody hP c defaultLocale
  have hclose : All P [CodePoint.lf, CodePoint.closeBrace, CodePoint.lf] :=
    hP.regular (by decide)
  refine all_concat.mpr ?_
  simp only [List.forall_mem_cons]
  exact ⟨hheader, hdeclare, halias, hopen, hP.indentLines hlines 1, hclose, List.forall_mem_nil _⟩

end Lenient

end Modules

/-! ### Modules of documents -/

namespace Catalogue.Contents

variable {documents : List Document} {c : Catalogue}
  (h : c.Contents Template.compiler (translationsOf documents))
include h

theorem allScripts {P : CodePoint → Prop} (hP : Lenient P) :
    ∀ entry ∈ c.entries, entry.2.AllScripts P := by
  intro entry hentry
  have hrecords := h.records entry hentry
  constructor
  · rintro ⟨locale, script⟩ hmem
    obtain ⟨t, compiled, hcompiled, -, rfl⟩ := hrecords.exists_expression hmem
    exact (hP.compiler hcompiled).1
  · rintro ⟨locale, script⟩ hmem
    obtain ⟨t, compiled, hcompiled, -, hfragment⟩ := hrecords.exists_fragment hmem
    exact (hP.compiler hcompiled).2 script hfragment

/-- **The data module holds the surrogates of the names** in the paths of the texts, and nothing else
that a lenient property is not known of. -/
theorem all_dataCode_iff {P : CodePoint → Prop} (hP : Lenient P) (defaultLocale : Text)
    (names : OrderedMap Text Text) :
    All P (Modules.dataCode c defaultLocale names).render ↔
      ∀ p, HasText documents p → p.SurrogatesHave P := by
  rw [Modules.all_dataCode hP (h.allScripts hP)]
  have hentry : ∀ p ∈ c.arena.leaves, ∃ e, c.entry? p = some e ∧ e.path = p := fun p hp =>
    h.exists_entry (h.find?_leaf.mp (h.rooted.mem_leaves.mp hp))
  simp only [Runtime.table_walk h.rooted, List.mem_filterMap]
  constructor
  · intro hall p hp
    have hleaf : p ∈ c.arena.leaves := h.rooted.mem_leaves.mpr (h.find?_leaf.mpr hp)
    obtain ⟨e, he, rfl⟩ := hentry p hleaf
    have hshown : e.path ∈ c.arena.leaves.filter (c.isShown .translations) :=
      List.mem_filter.mpr ⟨hleaf, rfl⟩
    exact (Runtime.all_tableEntry hP e).mp (hall .translations _ ⟨_, hshown, by rw [he]; rfl⟩)
  · rintro hall showing f ⟨p, hp, hf⟩
    obtain ⟨e, he, rfl⟩ := hentry p (List.mem_filter.mp hp).1
    rw [he] at hf
    cases hf
    exact (Runtime.all_tableEntry hP e).mpr
      (hall _ (h.find?_leaf.mp (h.rooted.mem_leaves.mp (List.mem_filter.mp hp).1)))

end Catalogue.Contents

/-- **No property around a text has a surrogate in its name.** -/
def PlainlyNamed (documents : List Document) : Prop :=
  ∀ d ∈ documents, ∀ steps t, d.tree.At steps (.text t) →
    ∀ s ∈ steps, ∀ c ∈ s.toText, c.isSurrogate = false

theorem plainlyNamed_iff {documents : List Document} : PlainlyNamed documents ↔
    ∀ p, HasText documents p → p.SurrogatesHave fun c => c.isSurrogate = false := by
  constructor
  · rintro h p ⟨d, hd, t, hat⟩ s hs c hc -
    exact h d hd p.segments t hat s hs c hc
  · intro h d hd steps t hat s hs c hc
    cases hsurrogate : c.isSurrogate with
    | false => rfl
    | true => exact hsurrogate.symm.trans (h ⟨steps⟩ ⟨d, hd, t, hat⟩ s hs c hc hsurrogate)

namespace Modules

/-- **The modules of merged documents can be stored as UTF-8**: the declaration module always, and
the data module just if no property around a text has a surrogate in its name. -/
theorem encodable_emit_iff {documents : List Document} {c : Catalogue}
    (h : (Catalogue.merge Template.compiler documents).outcome = .ok c) (defaultLocale : Text)
    (moduleAlias : Given Text) (names : OrderedMap Text Text) :
    ∃ modules, (emit c defaultLocale moduleAlias names).outcome = .ok modules ∧
      (∀ x ∈ modules.typesModule, x.isSurrogate = false) ∧
      (∃ bytes, Utf8.encode modules.typesModule = .ok bytes) ∧
      ((∀ x ∈ modules.dataModule, x.isSurrogate = false) ↔ PlainlyNamed documents) ∧
      ((∃ bytes, Utf8.encode modules.dataModule = .ok bytes) ↔ PlainlyNamed documents) := by
  have hcontents := Catalogue.contents_addDocuments (Catalogue.merge_eq_ok.mp h)
  have htypes := all_typesCode lenient_isSurrogate c defaultLocale moduleAlias
  have hdata := (hcontents.all_dataCode_iff lenient_isSurrogate defaultLocale names).trans
    plainlyNamed_iff.symm
  exact ⟨_, rfl, htypes, Utf8.exists_encode_iff.mpr htypes, hdata,
    Utf8.exists_encode_iff.trans hdata⟩

set_option maxRecDepth 2000 in
/-- Surrogates in a text, in a locale, in the alias and in a display name. -/
theorem encodable_emit_surrogates :
    let high : Text := [⟨0xD800, by decide⟩]
    let low : Text := [⟨0xDC00, by decide⟩]
    let documents : List Document :=
      [{ locale := high, tree := .map [(.text "a", .text ("\x7bb\x7d" ++ low ++ "\x7bb\x7d"))] }]
    ∃ c, (Catalogue.merge Template.compiler documents).outcome = .ok c ∧ PlainlyNamed documents ∧
      ∃ modules, (emit c high (.value low) [(high, low)]).outcome = .ok modules ∧
        (∀ x ∈ modules.typesModule, x.isSurrogate = false) ∧
        (∃ bytes, Utf8.encode modules.typesModule = .ok bytes) ∧
        ((∀ x ∈ modules.dataModule, x.isSurrogate = false) ↔ PlainlyNamed documents) ∧
        ((∃ bytes, Utf8.encode modules.dataModule = .ok bytes) ↔ PlainlyNamed documents) := by
  intro high low documents
  have hok : (Catalogue.merge Template.compiler documents).outcome.isOk = true := by cbv
  obtain ⟨c, hc⟩ := Except.exists_eq_ok hok
  have hplain : PlainlyNamed documents := by
    intro d hd steps t hat
    obtain rfl := List.mem_singleton.mp hd
    cases hat with
    | entry hentry hat =>
      cases List.mem_singleton.mp hentry
      cases hat
      decide
  exact ⟨c, hc, hplain, encodable_emit_iff hc _ _ _⟩

set_option maxRecDepth 2000 in
/-- A surrogate in the name of a property stands for itself in the subscript of an accessor. -/
theorem unencodable_emit :
    let tree : Datum Foreign := .map [(.text [⟨0xD800, by decide⟩], .text "x")]
    let documents : List Document := [{ locale := "en", tree }]
    Document.decode "\x7b\"\\ud800\": \"x\"\x7d" "en.json" = .ok tree ∧
      ∃ c, (Catalogue.merge Template.compiler documents).outcome = .ok c ∧
        ∃ modules, (emit c "en" (.value usualAlias) []).outcome = .ok modules ∧
          (∃ x ∈ modules.dataModule, x.isSurrogate = true) ∧
          ∀ bytes, Utf8.encode modules.dataModule ≠ .ok bytes := by
  intro tree documents
  have hdecode : Document.decode (α := Foreign) "\x7b\"\\ud800\": \"x\"\x7d" "en.json" =
      .ok tree := by cbv
  have hok : (Catalogue.merge Template.compiler documents).outcome.isOk = true := by cbv
  obtain ⟨c, hc⟩ := Except.exists_eq_ok hok
  have hnamed : ¬ PlainlyNamed documents := by
    intro h
    have hat : tree.At [.name [⟨0xD800, by decide⟩]] (.text "x") :=
      .entry List.mem_cons_self (.here _)
    have hplain := h _ List.mem_cons_self _ _ hat _ List.mem_cons_self _ List.mem_cons_self
    exact absurd hplain (by decide)
  have hcontents := Catalogue.contents_addDocuments (Catalogue.merge_eq_ok.mp hc)
  have hdata := (hcontents.all_dataCode_iff lenient_isSurrogate "en" []).trans
    plainlyNamed_iff.symm
  refine ⟨hdecode, c, hc, _, rfl, ?_, fun bytes hbytes => ?_⟩
  · by_contra hnone
    refine hnamed (hdata.mp fun x hx => Bool.eq_false_iff.mpr fun hs => hnone ⟨x, hx, hs⟩)
  · exact hnamed (hdata.mp (Utf8.exists_encode_iff.mp ⟨bytes, hbytes⟩))

end Modules

end Phrasebook
