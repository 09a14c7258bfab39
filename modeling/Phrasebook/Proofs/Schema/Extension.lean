import Phrasebook.Proofs.Schema.Consistency
import Phrasebook.Proofs.Schema.Reordering

/-! # One more document

A document that is merged after others only extends what they have (`Catalogue.Extends`,
`Catalogue.extends_merge`): nodes keep their numbers and their children, keys keep their order and
their signatures, and the scripts of all other locales stay as they are. Documents of which some list
can be merged can be merged without the others of the list (`exists_merge_of_subset`), as what makes
documents mergeable is asked of single values and of pairs of texts. -/

namespace Phrasebook

/-! ### Fewer documents -/

/-- **Documents that can be merged can be merged without some of them.** -/
theorem exists_merge_of_subset {compiler : Compiler} {documents others : List Document}
    (hsubset : others ⊆ documents)
    (h : ∃ c, (Catalogue.merge compiler documents).outcome = .ok c) :
    ∃ c, (Catalogue.merge compiler others).outcome = .ok c := by
  have hvalues : Ledger.valuesOf others ⊆ Ledger.valuesOf documents := by
    rintro ⟨path, value⟩ hmem
    obtain ⟨d, hd, hat⟩ := mem_valuesOf.mp hmem
    exact mem_valuesOf.mpr ⟨d, hsubset hd, hat⟩
  have htexts : Ledger.texts (Ledger.valuesOf others) ⊆
      Ledger.texts (Ledger.valuesOf documents) := List.filterMap_subset _ hvalues
  rw [(Catalogue.agree_merge compiler documents).exists_ok_iff,
    Ledger.exists_acceptDocuments] at h
  obtain ⟨hroots, hshallow, hcompiles, hharmonious⟩ := h
  rw [(Catalogue.agree_merge compiler others).exists_ok_iff, Ledger.exists_acceptDocuments]
  refine ⟨fun d hd => hroots d (hsubset hd), fun x hx => hshallow x (hvalues hx), ?_, ?_⟩
  · exact fun x hx => hcompiles x (htexts hx)
  · exact fun x hx y hy => hharmonious x (htexts hx) y (htexts hy)

namespace Catalogue

section Append
variable {compiler : Compiler}

theorem addDocuments_append (guard : NestingGuard) (c : Catalogue)
    (first rest : List Document) :
    (addDocuments compiler guard c (first ++ rest)).outcome =
      (addDocuments compiler guard c first).outcome.bind fun c =>
        (addDocuments compiler guard c rest).outcome := by
  induction first generalizing c with
  | nil => rfl
  | cons document first ih =>
    rw [List.cons_append, addDocuments, addDocuments, Report.outcome_bind, Report.outcome_bind,
      Except.bind_assoc]
    congr 1
    funext next
    exact ih next

theorem merge_append_eq_ok {documents : List Document} {d : Document} {c' : Catalogue}
    (h : (merge compiler (documents ++ [d])).outcome = .ok c') :
    ∃ c, (merge compiler documents).outcome = .ok c ∧
      (addDocument compiler (.ofLimit NestingGuard.usualLimit) c d).outcome = .ok c' := by
  rw [merge_eq_ok, addDocuments_append, Except.bind_eq_ok] at h
  obtain ⟨c, hc, hd⟩ := h
  simp only [addDocuments, Report.outcome_bind, Except.bind_eq_ok] at hd
  obtain ⟨found, hfound, hsame⟩ := hd
  cases hsame
  exact ⟨c, merge_eq_ok.mpr hc, hfound⟩

end Append

/-! ### What stays -/

/-- The script of a key in a locale. -/
def expression? (c : Catalogue) (locale key : Text) : Option Text :=
  (c.entries.get? key).bind fun e => e.expressions.get? locale

/-- The script of the parts of a key in a locale. -/
def fragment? (c : Catalogue) (locale key : Text) : Option Text :=
  (c.entries.get? key).bind fun e => e.fragments.get? locale

/-- **A catalogue is extended** by the texts of a locale. -/
structure Extends (locale : Text) (c c' : Catalogue) : Prop where
  /-- Each node keeps its number, its kind and its path, and new children come last. -/
  tree : c.arena.Extends c'.arena
  /-- The keys keep their order. -/
  keys : c.arena.keys.Sublist c'.arena.keys
  /-- Each key keeps its path and its signature. -/
  entry : ∀ key e, c.entries.get? key = some e →
    ∃ e', c'.entries.get? key = some e' ∧ e'.path = e.path ∧ e'.signature = e.signature
  /-- The scripts of the other locales stay, also where there were none. -/
  expression : ∀ other, other ≠ locale → ∀ key, c'.expression? other key = c.expression? other key
  fragment : ∀ other, other ≠ locale → ∀ key, c'.fragment? other key = c.fragment? other key

section Contents
variable {compiler : Compiler} {past : List Translation} {c c' : Catalogue}

/-- **The tree is extended** by a document. -/
theorem Contents.addDocument (h : Contents compiler past c) {guard : NestingGuard} {d : Document}
    (hok : (addDocument compiler guard c d).outcome = .ok c') :
    Contents compiler (past ++ d.translations) c' ∧ c.arena.Extends c'.arena := by
  refine addDocument_translations (P := fun past next =>
    Contents compiler past next ∧ c.arena.Extends next.arena) ?_ ?_ ⟨h, .refl _⟩ hok
  · rintro past next locales ⟨hnext, hextends⟩
    exact ⟨hnext.withLocales locales, hextends⟩
  · rintro past next next' t ⟨hnext, hextends⟩ htext
    obtain ⟨id, hlaid⟩ := hnext.represents.laid hnext.rooted htext
    exact ⟨hnext.accepted (hnext.represents.accepted hnext.rooted htext),
      hextends.trans hlaid.extends⟩

variable {d : Document} {locale : Text} (h : Contents compiler past c)
  (h' : Contents compiler (past ++ d.translations) c')
include h h'

theorem Contents.exists_larger {key : Text} {e : Entry} (he : c.entries.get? key = some e) :
    ∃ e', c'.entries.get? key = some e' ∧ e'.path = e.path ∧ e'.signature = e.signature :=
  h.exists_entry_of_get? h' (fun _ => List.mem_append_left _) he

theorem Contents.ne_path_of_new {key : Text} {e' : Entry} (he' : c'.entries.get? key = some e')
    (hnew : c.entries.get? key = none) : ∀ t ∈ past, t.path ≠ e'.path := by
  intro t ht hpath
  have hkey : key = e'.path.key := h'.represents.keyed _ (OrderedMap.mem_of_get? he')
  obtain ⟨e, hget, -⟩ := h.represents.exists_entry ((h.paths e'.path).mpr ⟨t, ht, hpath⟩)
  rw [← hkey, hnew] at hget
  cases hget

theorem Contents.scripts_eq (hlocale : d.locale ≠ locale) (key : Text) :
    c'.expression? locale key = c.expression? locale key ∧
      c'.fragment? locale key = c.fragment? locale key := by
  unfold expression? fragment?
  cases he' : c'.entries.get? key with
  | none =>
    have hnone : c.entries.get? key = none := by
      cases he : c.entries.get? key with
      | none => rfl
      | some e =>
        obtain ⟨found, hfound, -⟩ := h.exists_larger h' he
        rw [he'] at hfound
        cases hfound
    rw [hnone]
    exact ⟨rfl, rfl⟩
  | some e' =>
    have hrecords' := h'.records _ (OrderedMap.mem_of_get? he')
    rw [Option.bind_some, Option.bind_some, hrecords'.expression, hrecords'.fragment,
      outputs_append, outputs_translations_eq_nil hlocale, List.append_nil]
    cases he : c.entries.get? key with
    | some e =>
      have hrecords := h.records _ (OrderedMap.mem_of_get? he)
      obtain ⟨found, hfound, hpath, hs⟩ := h.exists_larger h' he
      rw [he'] at hfound
      cases hfound
      rw [Option.bind_some, Option.bind_some, hrecords.expression, hrecords.fragment, hpath, hs]
      exact ⟨rfl, rfl⟩
    | none =>
      rw [outputs_eq_nil (h.ne_path_of_new h' he' he)]
      simp

end Contents

/-- **One more document only extends** what the documents before it have. In particular they could be
merged without it; and so can be any documents out of a list that can be merged. -/
theorem extends_merge (compiler : Compiler) :
    (∀ documents d c', (merge compiler (documents ++ [d])).outcome = .ok c' →
      ∃ c, (merge compiler documents).outcome = .ok c ∧ c.Extends d.locale c') ∧
    ∀ documents others, others.Sublist documents →
      (∃ c, (merge compiler documents).outcome = .ok c) →
        ∃ c, (merge compiler others).outcome = .ok c := by
  refine ⟨fun documents d c' h => ?_, fun documents others hsublist => ?_⟩
  · obtain ⟨c, hc, hd⟩ := merge_append_eq_ok h
    have hcontents := contents_addDocuments (merge_eq_ok.mp hc)
    obtain ⟨hcontents', hextends⟩ := hcontents.addDocument hd
    refine ⟨c, hc, hextends, hextends.sublist_keys hcontents.rooted hcontents'.rooted, ?_, ?_, ?_⟩
    · exact fun key e he => hcontents.exists_larger hcontents' he
    · exact fun other hother key => (hcontents.scripts_eq hcontents' hother.symm key).1
    · exact fun other hother key => (hcontents.scripts_eq hcontents' hother.symm key).2
  · exact exists_merge_of_subset hsublist.subset

set_option maxRecDepth 2000 in
/-- A third document adds a child to a node of the first two, and a text to a key of both. -/
theorem extends_merge_third :
    let documents : List Document :=
      [{ locale := "en", tree := .map [(.text "a", .map [(.text "x", .text "\x7bf: n\x7d")])] },
        { locale := "de", tree := .map [(.text "b", .text "\x7bn\x7d"),
          (.text "a", .map [(.text "x", .text "\x7bf:\x7d!")])] }]
    let d : Document :=
      { locale := "fr", tree := .map [(.text "a", .map [(.text "y", .text "\x7b n \x7d."),
        (.text "x", .text "\x7b f : \x7d")])] }
    ∃ c', (merge Template.compiler (documents ++ [d])).outcome = .ok c' ∧
      (∃ c, (merge Template.compiler documents).outcome = .ok c ∧ c.Extends d.locale c') ∧
        ∃ c, (merge Template.compiler [d]).outcome = .ok c := by
  intro documents d
  have hok : (merge Template.compiler (documents ++ [d])).outcome.isOk = true := by cbv
  obtain ⟨c', hc'⟩ := Except.exists_eq_ok hok
  obtain ⟨hextends, hsublists⟩ := extends_merge Template.compiler
  have hsublist : [d].Sublist (documents ++ [d]) := List.sublist_append_right documents [d]
  exact ⟨c', hc', hextends documents d c' hc', hsublists _ _ hsublist ⟨c', hc'⟩⟩

end Catalogue

end Phrasebook
