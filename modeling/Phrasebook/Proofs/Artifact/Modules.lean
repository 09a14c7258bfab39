import Mathlib.Data.List.Permutation
import Phrasebook.Artifact.Modules
import Phrasebook.Proofs.Artifact.Declarations
import Phrasebook.Proofs.Artifact.Runtime

/-! # No text breaks the generated modules

Both modules of a merged schema are balanced (`balanced_emit`): whatever the documents, the default
locale, the alias and the display names hold, the lexer reads the modules to their ends, and there
no literal, comment or bracket is open. -/

namespace Phrasebook.Modules

open Lexer

/-! ### Parts of the modules -/

theorem balanced_assignment {head : Text} (hhead : Balanced head) {value : Fragment}
    (h : Balanced value.render) :
    Balanced (Code.concat [Fragment.plain head, value, Fragment.plain ";"]).render := by
  have hend : Balanced ";" := by decide
  refine balanced_concat ?_
  simp only [List.forall_mem_cons]
  exact ⟨hhead, h, hend, List.forall_mem_nil _⟩

theorem balanced_exported {name : Text} (hname : Balanced name) {value : Fragment}
    (h : Balanced value.render) : Balanced (exported name value).render := by
  have hexport : Balanced "export const " := by decide
  have hequals : Balanced " = " := by decide
  exact balanced_assignment ((hexport.append hname).append hequals) h

theorem balanced_exportedType {name : Text} (hname : Balanced name) {type : Fragment}
    (h : Balanced type.render) : Balanced (exportedType name type).render := by
  have hexport : Balanced "export type " := by decide
  have hequals : Balanced " = " := by decide
  exact balanced_assignment ((hexport.append hname).append hequals) h

theorem forall_balanced_quoted (items : List Text) :
    ∀ f ∈ items.map fun t => Fragment.plain t.quoted, Balanced f.render := by
  intro f hf
  obtain ⟨t, -, rfl⟩ := List.mem_map.mp hf
  exact balanced_quoted t

theorem balanced_textArray (items : List Text) : Balanced (textArray items).render := by
  have henclose : Encloses "[" "]" := ⟨_, rfl, rfl⟩
  have hseparator : Balanced ", " := by decide
  exact balanced_bracketedList henclose hseparator (forall_balanced_quoted items)

theorem balanced_localeType (locales : List Text) : Balanced (localeType locales).render := by
  have hseparator : Balanced " | " := by decide
  unfold localeType
  split
  · decide
  · exact balanced_separated hseparator (forall_balanced_quoted _)

theorem balanced_localeNames (c : Catalogue) (names : OrderedMap Text Text) :
    Balanced (localeNames c names).render := by
  refine balanced_object fun p hp => ?_
  obtain ⟨locale, -, rfl⟩ := List.mem_map.mp hp
  exact balancedProperty_text locale (balanced_quoted _)

theorem balanced_factory {name : Text} (hname : Balanced name) {body : Code}
    (h : Balanced body.render) : Balanced (factory name body).render := by
  have hfunction : Balanced "export function " := by decide
  have hreactive : Balanced "(reactive) " := by decide
  have hbody : Encloses (CodePoint.openBrace :: CodePoint.lf :: "  return ")
      [CodePoint.ofChar ';', CodePoint.lf, CodePoint.closeBrace] := ⟨_, rfl, rfl⟩
  have hhead := (hfunction.append hname).append hreactive
  have hcode : Balanced (Fragment.code body).render := h
  have hindented := hcode.indent 1
  have hfactory := hhead.append (hbody.balanced hindented)
  show Balanced (Code.concat _).render
  rw [Code.render_concat]
  simpa using hfactory

theorem balanced_mapLiteral {entries : List Fragment} (h : ∀ f ∈ entries, Balanced f.render) :
    Balanced (mapLiteral entries).render := by
  have henclose : Encloses ("new Map([" ++ Code.firstBreak) (CodePoint.lf :: "])") :=
    ⟨_, rfl, rfl⟩
  have hseparator : Balanced Code.entryBreak := by decide
  unfold mapLiteral
  split
  · decide
  · exact balanced_bracketedList henclose hseparator h

theorem balanced_typeLiteral {entries : List Fragment} (h : ∀ f ∈ entries, Balanced f.render) :
    Balanced (typeLiteral entries).render := by
  have henclose : Encloses (CodePoint.openBrace :: Code.firstBreak)
      [CodePoint.lf, CodePoint.closeBrace] := ⟨_, rfl, rfl⟩
  have hseparator : Balanced Code.entryBreak := by decide
  unfold typeLiteral
  split
  · decide
  · exact balanced_bracketedList henclose hseparator h

/-! ### The data module -/

/-- The first line is a comment, which the line feeds after it close. -/
theorem balanced_sections {sections : List Fragment} (hne : sections ≠ [])
    (h : ∀ f ∈ sections, Balanced f.render) :
    Balanced (Code.join (Fragment.plain blankLine) (Fragment.plain header :: sections)).render := by
  have hheader : Balanced (header ++ blankLine) := by decide
  have hblank : Balanced blankLine := by decide
  have hrest := hheader.append (balanced_separated hblank h)
  have hrendered : sections.map Fragment.render ≠ [] := by simpa using hne
  rw [Code.render_join] at hrest ⊢
  rw [List.map_cons, ← List.singleton_append, Code.join_append _ (List.cons_ne_nil _ _) hrendered]
  exact hrest

theorem balanced_dataCode {c : Catalogue} (hc : c.Balanced) (defaultLocale : Text)
    (names : OrderedMap Text Text) : Balanced (dataCode c defaultLocale names).render := by
  have htranslations := Runtime.balanced_walk hc .translations
  have hsnippets := Runtime.balanced_walk hc .snippets
  have hbreak : Balanced [CodePoint.lf] := by decide
  have hhoisted : ∀ f ∈ (if (Runtime.walk c .snippets).declarations.isEmpty then []
      else [Fragment.code (Code.lines (Runtime.walk c .snippets).declarations)]),
        Balanced f.render := by
    split_ifs
    · exact List.forall_mem_nil _
    · exact List.forall_mem_singleton.mpr (balanced_separated hbreak hsnippets.declarations)
  refine balanced_concat ?_
  rw [List.forall_mem_cons, List.forall_mem_singleton]
  refine ⟨?_, hbreak⟩
  show Balanced (Code.join (Fragment.plain blankLine)
    (Fragment.plain header :: (_ ++ _ ++ _))).render
  refine balanced_sections (by simp) ?_
  simp only [List.forall_mem_append, List.forall_mem_cons]
  refine ⟨⟨⟨?_, ?_, ?_, List.forall_mem_nil _⟩, hhoisted⟩, ?_, ?_, ?_, ?_, List.forall_mem_nil _⟩
  · exact balanced_exported (by decide) (balanced_textArray c.locales)
  · exact balanced_exported (by decide) (balanced_quoted defaultLocale)
  · exact balanced_exported (by decide) (balanced_localeNames c names)
  · exact balanced_factory (by decide) htranslations.object
  · exact balanced_factory (by decide) hsnippets.object
  · exact balanced_exported (by decide) (balanced_mapLiteral htranslations.table)
  · exact balanced_exported (by decide) (balanced_mapLiteral hsnippets.table)

/-! ### The declaration module -/

theorem balanced_lines {lines : List Fragment} (h : ∀ f ∈ lines, Balanced f.render) :
    Balanced (Code.lines lines).render := by
  have hbreak : Balanced [CodePoint.lf] := by decide
  exact balanced_separated hbreak h

/-- Lines are balanced if those before and those from a number on are. -/
theorem balanced_lines_split (n : Nat) {lines : List Fragment} (hn : lines.take n ≠ [])
    (hr : lines.drop n ≠ []) (hfirst : Balanced (Code.lines (lines.take n)).render)
    (hrest : Balanced (Code.lines (lines.drop n)).render) : Balanced (Code.lines lines).render := by
  have hbreak : Balanced [CodePoint.lf] := by decide
  have hlines := (hfirst.append hbreak).append hrest
  unfold Code.lines at hlines ⊢
  rw [Code.render_join, Code.render_join] at hlines
  rw [Code.render_join, ← List.take_append_drop n lines, List.map_append,
    Code.join_append _ (by simpa using hn) (by simpa using hr)]
  exact hlines

theorem balanced_typesBody (c : Catalogue) (defaultLocale : Text) :
    Balanced (typesBody c defaultLocale).render := by
  have htranslations := Declarations.balanced_walk c .translations
  have hsnippets := Declarations.balanced_walk c .snippets
  have hlocales := balanced_localeType c.locales
  have hdefault : Balanced (Code.concat [Fragment.plain "export const defaultLocale: ",
      Fragment.plain defaultLocale.quoted, Fragment.plain ";"]).render :=
    balanced_assignment (by decide) (balanced_quoted defaultLocale)
  -- The brackets of the type `Reactive` are on four lines.
  unfold typesBody
  refine balanced_lines_split 18 (by simp) (by simp) (balanced_lines ?_)
    (balanced_lines_split 4 (by simp) (by simp) ?_ (balanced_lines ?_))
  · simp only [List.take_succ_cons, List.take_zero, List.forall_mem_cons]
    exact ⟨balanced_ofList (by decide), balanced_ofList (by decide), balanced_ofList (by decide),
      balanced_ofList (by decide), balanced_ofList (by decide), balanced_ofList (by decide),
      balanced_nil, balanced_exportedType (by decide) hlocales, balanced_ofList (by decide),
      hdefault, balanced_ofList (by decide), balanced_nil,
      balanced_exportedType (by decide) htranslations.type,
      balanced_exportedType (by decide) hsnippets.type,
      balanced_exportedType (by decide) (balanced_typeLiteral htranslations.table),
      balanced_exportedType (by decide) (balanced_typeLiteral hsnippets.table),
      balanced_ofList (by decide), balanced_ofList (by decide), List.forall_mem_nil _⟩
  · simp only [List.drop_succ_cons, List.drop_zero, List.take_succ_cons, List.take_zero]
    decide
  · simp only [List.drop_succ_cons, List.drop_zero, List.forall_mem_cons]
    exact ⟨balanced_nil, balanced_ofList (by decide), balanced_ofList (by decide),
      balanced_ofList (by decide), balanced_ofList (by decide), List.forall_mem_nil _⟩

theorem balanced_declaredAlias (moduleAlias : Given Text) :
    Balanced (declaredAlias moduleAlias) := by
  cases moduleAlias with
  | value t => exact balanced_quoted t
  | blank => decide

theorem balanced_typesCode (c : Catalogue) (defaultLocale : Text) (moduleAlias : Given Text) :
    Balanced (typesCode c defaultLocale moduleAlias).render := by
  have hheader : Balanced (header ++ (blankLine ++ "declare module ")) := by decide
  have hbody : Encloses [CodePoint.space, CodePoint.openBrace, CodePoint.lf]
      [CodePoint.lf, CodePoint.closeBrace, CodePoint.lf] := ⟨_, rfl, rfl⟩
  have hlines : Balanced (Fragment.code (typesBody c defaultLocale)).render :=
    balanced_typesBody c defaultLocale
  have htypes := (hheader.append (balanced_declaredAlias moduleAlias)).append
    (hbody.balanced (hlines.indentLines 1))
  unfold typesCode
  rw [Code.render_concat]
  simpa using htypes

/-! ### Both modules -/

/-- **No text breaks the modules of a merged schema.** -/
theorem balanced_emit {documents : List Document} {c : Catalogue}
    (h : (Catalogue.merge Template.compiler documents).outcome = .ok c) (defaultLocale : Text)
    (moduleAlias : Given Text) (names : OrderedMap Text Text) :
    ∃ modules, (emit c defaultLocale moduleAlias names).outcome = .ok modules ∧
      Balanced modules.dataModule ∧ Balanced modules.typesModule := by
  have hc := Catalogue.balanced_addDocuments (Catalogue.merge_eq_ok.mp h)
  exact ⟨_, rfl, balanced_dataCode hc defaultLocale names,
    balanced_typesCode c defaultLocale moduleAlias⟩

set_option maxRecDepth 2000 in
/-- Names, locales and texts that hold quotation marks, backslashes, braces, line feeds and the
beginnings of comments and of interpolations. -/
theorem balanced_emit_quotes :
    let tree : Datum Foreign := .map
      [(.text "a\"`.", .text "\"`$\\\x7b\n\x7bb:x \x7b name \x7d\x7d"),
        (.text "k'", .list [.text "//", .text "$\\\x7b", .null])]
    let documents : List Document := [{ locale := "e\"n", tree }]
    ∃ c, (Catalogue.merge Template.compiler documents).outcome = .ok c ∧
      ∃ modules, (emit c "e\"n" (.value "\\") [("e\"n", "*/\n")]).outcome = .ok modules ∧
        Balanced modules.dataModule ∧ Balanced modules.typesModule := by
  intro tree documents
  have hok : (Catalogue.merge Template.compiler documents).outcome.isOk = true := by cbv
  obtain ⟨c, hc⟩ := Except.exists_eq_ok hok
  exact ⟨c, hc, balanced_emit hc _ _ _⟩

end Phrasebook.Modules
