import Mathlib.Data.List.Permutation
import Phrasebook.Proofs.Schema.Contents
import Phrasebook.Proofs.Schema.Values

/-! # Documents in another order

Whether documents can be merged does not depend on their order (`exists_merge_perm`), and if each is
of a locale of its own, neither does what a merge knows of a key: its path, its signature, and the
scripts of each locale (`Catalogue.Alike`, `alike_merge_perm`). -/

namespace Phrasebook

variable {compiler : Compiler} {documents documents' : List Document}

/-! ### Whether documents can be merged -/

/-- **Documents that can be merged can be merged in any order.** -/
theorem exists_merge_perm (hperm : documents.Perm documents') :
    (∃ c, (Catalogue.merge compiler documents).outcome = .ok c) ↔
      ∃ c, (Catalogue.merge compiler documents').outcome = .ok c := by
  have hvalues : (Ledger.valuesOf documents).Perm (Ledger.valuesOf documents') :=
    hperm.flatMap_right _
  have htexts : (Ledger.texts (Ledger.valuesOf documents)).Perm
      (Ledger.texts (Ledger.valuesOf documents')) := hvalues.filterMap _
  rw [(Catalogue.agree_merge compiler documents).exists_ok_iff,
    (Catalogue.agree_merge compiler documents').exists_ok_iff, Ledger.exists_acceptDocuments,
    Ledger.exists_acceptDocuments]
  unfold Ledger.Shallow
  simp only [hperm.mem_iff, hvalues.mem_iff, htexts.mem_iff]

/-! ### What the locales have -/

theorem outputs_translations_eq_nil {d : Document} {locale : Text} {path : KeyPath}
    (h : d.locale ≠ locale) : outputs compiler d.translations locale path = [] := by
  refine List.eq_nil_iff_forall_not_mem.mpr fun compiled hmem => ?_
  obtain ⟨t, ht, hlocale, -, -⟩ := mem_outputs.mp hmem
  obtain ⟨hdocument, -⟩ := Document.mem_translations.mp ht
  exact h (hdocument.symm.trans hlocale)

/-- **The outputs of a locale do not depend on the order of the documents** if each is of a locale
of its own. -/
theorem outputs_perm (hperm : documents.Perm documents')
    (hlocales : (documents.map Document.locale).Nodup) (locale : Text) (path : KeyPath) :
    outputs compiler (translationsOf documents) locale path =
      outputs compiler (translationsOf documents') locale path := by
  induction hperm with
  | nil => rfl
  | cons d hperm ih =>
    have htail := ih (List.nodup_cons.mp hlocales).2
    unfold translationsOf at htail ⊢
    rw [List.flatMap_cons, List.flatMap_cons, outputs_append, outputs_append, htail]
  | swap d e rest =>
    have hne : e.locale ≠ d.locale := by
      intro hsame
      have hhead := (List.nodup_cons.mp hlocales).1
      rw [hsame] at hhead
      exact hhead List.mem_cons_self
    unfold translationsOf
    simp only [List.flatMap_cons, outputs_append]
    -- One of the two documents is of another locale and has no output.
    by_cases hd : d.locale = locale
    · have he : e.locale ≠ locale := fun he => hne (he.trans hd.symm)
      rw [outputs_translations_eq_nil he, List.nil_append, List.nil_append]
    · rw [outputs_translations_eq_nil hd, List.nil_append, List.nil_append]
  | trans hfirst _ ih ih' =>
    have hmiddle := (hfirst.map Document.locale).nodup_iff.mp hlocales
    exact (ih hlocales).trans (ih' hmiddle)

/-! ### What a merge knows of the keys -/

/-- **Two catalogues know the same of each key**: they have the same keys, and under each the same
path, the same signature and the same scripts of each locale. -/
structure Catalogue.Alike (c c' : Catalogue) : Prop where
  keys : ∀ key, key ∈ c.entries.keys ↔ key ∈ c'.entries.keys
  entries : ∀ key e e', c.entries.get? key = some e → c'.entries.get? key = some e' →
    e.path = e'.path ∧ e.signature = e'.signature ∧
      ∀ locale, e.expressions.get? locale = e'.expressions.get? locale ∧
        e.fragments.get? locale = e'.fragments.get? locale

theorem Catalogue.Contents.exists_entry_of_get? {past past' : List Translation} {c c' : Catalogue}
    (h : c.Contents compiler past) (h' : c'.Contents compiler past')
    (hpast : ∀ t ∈ past, t ∈ past') {key : Text} {e : Entry}
    (he : c.entries.get? key = some e) :
    ∃ e', c'.entries.get? key = some e' ∧ e'.path = e.path ∧ e'.signature = e.signature := by
  have hmem := OrderedMap.mem_of_get? he
  have hkey : key = e.path.key := h.represents.keyed _ hmem
  obtain ⟨t, ht, hpath⟩ := (h.paths e.path).mp (Catalogue.mem_ledger_keys.mpr ⟨_, hmem, rfl⟩)
  have hpath' := (h'.paths e.path).mpr ⟨t, hpast t ht, hpath⟩
  obtain ⟨e', he', hsame, -⟩ := h'.represents.exists_entry hpath'
  rw [← hkey] at he'
  obtain ⟨compiled, hcompiled, hs⟩ := (h.records _ hmem).signature t ht hpath
  obtain ⟨other, hother, hs'⟩ := (h'.records _ (OrderedMap.mem_of_get? he')).signature t
    (hpast t ht) (hpath.trans hsame.symm)
  rw [hcompiled] at hother
  cases hother
  exact ⟨e', he', hsame, hs'.symm.trans hs⟩

theorem Catalogue.Contents.alike {past past' : List Translation} {c c' : Catalogue}
    (h : c.Contents compiler past) (h' : c'.Contents compiler past')
    (hpast : ∀ t, t ∈ past ↔ t ∈ past')
    (houtputs : ∀ locale path,
      outputs compiler past locale path = outputs compiler past' locale path) : c.Alike c' where
  keys key := by
    rw [OrderedMap.mem_keys_iff, OrderedMap.mem_keys_iff]
    constructor
    · rintro ⟨e, he⟩
      obtain ⟨e', he', -⟩ := h.exists_entry_of_get? h' (fun t => (hpast t).mp) he
      exact ⟨e', he'⟩
    · rintro ⟨e', he'⟩
      obtain ⟨e, he, -⟩ := h'.exists_entry_of_get? h (fun t => (hpast t).mpr) he'
      exact ⟨e, he⟩
  entries key e e' he he' := by
    obtain ⟨found, hfound, hpath, hs⟩ := h.exists_entry_of_get? h' (fun t => (hpast t).mp) he
    rw [he'] at hfound
    cases hfound
    have hrecords := h.records _ (OrderedMap.mem_of_get? he)
    have hrecords' := h'.records _ (OrderedMap.mem_of_get? he')
    refine ⟨hpath.symm, hs.symm, fun locale => ⟨?_, ?_⟩⟩
    · rw [hrecords.expression, hrecords'.expression, hpath, houtputs]
    · rw [hrecords.fragment, hrecords'.fragment, hpath, hs, houtputs]

/-- **The order of documents of different locales** changes neither whether they can be merged nor
what is known of each key. -/
theorem alike_merge_perm (hperm : documents.Perm documents')
    (hlocales : (documents.map Document.locale).Nodup) :
    ((∃ c, (Catalogue.merge compiler documents).outcome = .ok c) ↔
        ∃ c, (Catalogue.merge compiler documents').outcome = .ok c) ∧
      ∀ c c', (Catalogue.merge compiler documents).outcome = .ok c →
        (Catalogue.merge compiler documents').outcome = .ok c' → c.Alike c' := by
  refine ⟨exists_merge_perm hperm, fun c c' hc hc' => ?_⟩
  have h := Catalogue.contents_addDocuments (Catalogue.merge_eq_ok.mp hc)
  have h' := Catalogue.contents_addDocuments (Catalogue.merge_eq_ok.mp hc')
  have hpast : (translationsOf documents).Perm (translationsOf documents') :=
    hperm.flatMap_right _
  exact h.alike h' (fun _ => hpast.mem_iff) (outputs_perm hperm hlocales)

set_option maxRecDepth 2000 in
/-- Three locales the other way around; the one that defines a key first is another then. -/
theorem alike_merge_reverse :
    let documents : List Document :=
      [{ locale := "en", tree := .map [(.text "a", .map [(.text "x", .text "\x7bf: n\x7d")])] },
        { locale := "de", tree := .map [(.text "b", .text "\x7bn\x7d"),
          (.text "a", .map [(.text "x", .text "\x7bf:\x7d!")])] },
        { locale := "fr", tree := .map [(.text "b", .text "\x7b n \x7d.")] }]
    (documents.map Document.locale).Nodup ∧
      ∃ c c', (Catalogue.merge Template.compiler documents).outcome = .ok c ∧
        (Catalogue.merge Template.compiler documents.reverse).outcome = .ok c' ∧ c.Alike c' := by
  intro documents
  have hlocales : (documents.map Document.locale).Nodup := by decide
  have hperm : documents.Perm documents.reverse := (List.reverse_perm documents).symm
  have hok : (Catalogue.merge Template.compiler documents).outcome.isOk = true := by cbv
  obtain ⟨c, hc⟩ := Except.exists_eq_ok hok
  obtain ⟨hiff, halike⟩ := alike_merge_perm hperm hlocales
  obtain ⟨c', hc'⟩ := hiff.mp ⟨c, hc⟩
  exact ⟨hlocales, c, c', hc, hc', halike c c' hc hc'⟩

end Phrasebook
