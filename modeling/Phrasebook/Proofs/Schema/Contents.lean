import Phrasebook.Proofs.Schema.Growth

/-! # What the entries of a catalogue hold

A catalogue holds some translations if its keys are those of their paths and each entry has, for
each locale, what the compiler gave last for the texts of this locale at its path (`Contents`,
`Entry.Records`). Every accepted translation keeps this (`Contents.accepted`), so it holds of a
catalogue and the documents that were added to it (`contents_addDocuments`). -/

namespace Phrasebook

/-- What a compiler gives for the texts of a locale at a path, in the order of the texts. -/
def outputs (compiler : Compiler) (past : List Translation) (locale : Text) (path : KeyPath) :
    List CompiledTemplate :=
  past.filterMap fun t =>
    if t.locale = locale ∧ t.path = path then (compiler t.text).toOption else none

section Outputs
variable {compiler : Compiler} {past : List Translation} {t : Translation} {locale : Text}
  {path : KeyPath} {compiled : CompiledTemplate}

theorem mem_outputs : compiled ∈ outputs compiler past locale path ↔
    ∃ t ∈ past, t.locale = locale ∧ t.path = path ∧ compiler t.text = .ok compiled := by
  unfold outputs
  rw [List.mem_filterMap]
  refine exists_congr fun t => and_congr_right fun _ => ?_
  by_cases ht : t.locale = locale ∧ t.path = path
  · rw [if_pos ht]
    cases compiler t.text <;> simp [Except.toOption, ht.1, ht.2]
  · rw [if_neg ht]
    constructor
    · nofun
    · rintro ⟨hlocale, hpath, -⟩
      exact absurd ⟨hlocale, hpath⟩ ht

theorem outputs_append (past next : List Translation) :
    outputs compiler (past ++ next) locale path =
      outputs compiler past locale path ++ outputs compiler next locale path :=
  List.filterMap_append

theorem outputs_append_self (hcompiled : compiler t.text = .ok compiled) :
    outputs compiler (past ++ [t]) t.locale t.path =
      outputs compiler past t.locale t.path ++ [compiled] := by
  rw [outputs_append]
  simp [outputs, hcompiled, Except.toOption]

theorem outputs_append_other (h : ¬(t.locale = locale ∧ t.path = path)) :
    outputs compiler (past ++ [t]) locale path = outputs compiler past locale path := by
  rw [outputs_append]
  simp [outputs, h]

theorem outputs_eq_nil (h : ∀ t ∈ past, t.path ≠ path) : outputs compiler past locale path = [] := by
  refine List.eq_nil_iff_forall_not_mem.mpr fun compiled hmem => ?_
  obtain ⟨t, ht, -, hpath, -⟩ := mem_outputs.mp hmem
  exact h t ht hpath

end Outputs

/-- **An entry records translations**: for each locale it has what the compiler gave last for the
texts of the locale at its path, and all texts at its path compile to its signature. -/
structure Entry.Records (compiler : Compiler) (past : List Translation) (e : Entry) : Prop where
  expression : ∀ locale, e.expressions.get? locale =
    (outputs compiler past locale e.path).getLast?.map (·.expression)
  fragment : ∀ locale, e.fragments.get? locale =
    if e.signature.hasFormatters then
      ((outputs compiler past locale e.path).filterMap (·.fragment)).getLast?
    else none
  expressions_nodup : e.expressions.keys.Nodup
  fragments_nodup : e.fragments.keys.Nodup
  signature : ∀ t ∈ past, t.path = e.path →
    ∃ compiled, compiler t.text = .ok compiled ∧ compiled.signature = e.signature

namespace Entry

variable {compiler : Compiler} {past : List Translation} {e : Entry} {t : Translation}
  {compiled : CompiledTemplate}

theorem records_new {path : KeyPath} (h : ∀ t ∈ past, t.path ≠ path) (signature : Signature) :
    Records compiler past { path, signature } where
  expression locale := by
    show none = _
    rw [outputs_eq_nil h]
    rfl
  fragment locale := by
    show none = _
    rw [outputs_eq_nil h, List.filterMap_nil, List.getLast?_nil, ite_self]
  expressions_nodup := List.nodup_nil
  fragments_nodup := List.nodup_nil
  signature t ht hpath := absurd hpath (h t ht)

theorem Records.skip (h : e.Records compiler past) (ht : t.path ≠ e.path) :
    e.Records compiler (past ++ [t]) where
  expression locale := by
    rw [outputs_append_other fun hboth => ht hboth.2]
    exact h.expression locale
  fragment locale := by
    rw [outputs_append_other fun hboth => ht hboth.2]
    exact h.fragment locale
  expressions_nodup := h.expressions_nodup
  fragments_nodup := h.fragments_nodup
  signature := by
    refine List.forall_mem_append.mpr ⟨h.signature, List.forall_mem_singleton.mpr fun hpath => ?_⟩
    exact absurd hpath ht

theorem get?_fragments_add (locale other : Text) :
    (e.add locale compiled).fragments.get? other =
      if e.signature.hasFormatters = true ∧ compiled.fragment.isSome = true ∧ locale = other then
        compiled.fragment
      else e.fragments.get? other := by
  unfold add
  cases hs : e.signature.hasFormatters with
  | false => simp
  | true =>
    cases hf : compiled.fragment with
    | none => simp
    | some fragment => simp [OrderedMap.get?_put]

/-- **An entry to which a text was added** records it. -/
theorem Records.add (h : e.Records compiler past) (hpath : t.path = e.path)
    (hcompiled : compiler t.text = .ok compiled) (hs : compiled.signature = e.signature) :
    (e.add t.locale compiled).Records compiler (past ++ [t]) where
  expression locale := by
    show (e.expressions.put t.locale compiled.expression).get? locale =
      (outputs compiler (past ++ [t]) locale e.path).getLast?.map (·.expression)
    rw [OrderedMap.get?_put, ← hpath]
    by_cases hlocale : t.locale = locale
    · subst hlocale
      rw [if_pos rfl, outputs_append_self hcompiled, List.getLast?_concat, Option.map_some]
    · rw [if_neg hlocale, outputs_append_other fun hboth => hlocale hboth.1, h.expression, hpath]
  fragment locale := by
    show _ = if e.signature.hasFormatters then
      ((outputs compiler (past ++ [t]) locale e.path).filterMap (·.fragment)).getLast? else none
    rw [get?_fragments_add, h.fragment, ← hpath]
    by_cases hlocale : t.locale = locale
    · subst hlocale
      rw [outputs_append_self hcompiled, List.filterMap_append]
      cases e.signature.hasFormatters with
      | false => simp
      | true => cases hf : compiled.fragment <;> simp [hf]
    · rw [if_neg fun hall => hlocale hall.2.2, outputs_append_other fun hboth => hlocale hboth.1]
  expressions_nodup := OrderedMap.nodup_put h.expressions_nodup t.locale compiled.expression
  fragments_nodup := by
    unfold Entry.add
    split
    · exact OrderedMap.nodup_put h.fragments_nodup t.locale _
    · exact h.fragments_nodup
  signature := by
    refine List.forall_mem_append.mpr ⟨h.signature, List.forall_mem_singleton.mpr fun _ => ?_⟩
    exact ⟨compiled, hcompiled, hs⟩

/-- The script of a locale is that of a text with the signature of the entry. -/
theorem Records.exists_expression (h : e.Records compiler past) {locale script : Text}
    (hmem : (locale, script) ∈ e.expressions) : ∃ t compiled, compiler t = .ok compiled ∧
      compiled.signature = e.signature ∧ compiled.expression = script := by
  have hget := (OrderedMap.mem_iff_get? h.expressions_nodup).mp hmem
  rw [h.expression] at hget
  obtain ⟨compiled, hlast, hscript⟩ := Option.map_eq_some_iff.mp hget
  obtain ⟨t, ht, -, hpath, hcompiled⟩ := mem_outputs.mp (List.mem_of_getLast? hlast)
  obtain ⟨other, hother, hs⟩ := h.signature t ht hpath
  rw [hcompiled] at hother
  cases hother
  exact ⟨t.text, compiled, hcompiled, hs, hscript⟩

theorem Records.exists_fragment (h : e.Records compiler past) {locale script : Text}
    (hmem : (locale, script) ∈ e.fragments) : ∃ t compiled, compiler t = .ok compiled ∧
      compiled.signature = e.signature ∧ compiled.fragment = some script := by
  have hget := (OrderedMap.mem_iff_get? h.fragments_nodup).mp hmem
  rw [h.fragment] at hget
  split_ifs at hget
  obtain ⟨compiled, hin, hscript⟩ := List.mem_filterMap.mp (List.mem_of_getLast? hget)
  obtain ⟨t, ht, -, hpath, hcompiled⟩ := mem_outputs.mp hin
  obtain ⟨other, hother, hs⟩ := h.signature t ht hpath
  rw [hcompiled] at hother
  cases hother
  exact ⟨t.text, compiled, hcompiled, hs, hscript⟩

end Entry

namespace Catalogue

/-- **A catalogue holds translations**: its tree is rooted, its keys are those of their paths, and
its entries record them. -/
structure Contents (compiler : Compiler) (past : List Translation) (c : Catalogue) : Prop where
  represents : c.Represents c.ledger
  rooted : c.arena.Rooted
  paths : ∀ p, p ∈ c.ledger.keys ↔ ∃ t ∈ past, t.path = p
  records : ∀ entry ∈ c.entries, entry.2.Records compiler past

theorem contents_empty (compiler : Compiler) : Contents compiler [] {} where
  represents := represents_empty
  rooted := Arena.rooted_empty
  paths p := by
    rw [mem_ledger_keys]
    constructor <;> rintro ⟨_, hmem, -⟩ <;> cases hmem
  records := List.forall_mem_nil _

section Contents
variable {compiler : Compiler} {past : List Translation} {c c' : Catalogue} {t : Translation}

theorem Represents.entry_unique {l : Ledger} (h : c.Represents l) {x y : Text × Entry}
    (hx : x ∈ c.entries) (hy : y ∈ c.entries) (hpath : x.2.path = y.2.path) : x = y := by
  have hkey : x.1 = y.1 := by
    rw [h.keyed x hx, h.keyed y hy]
    exact congrArg KeyPath.key hpath
  have hget : c.entries.get? x.1 = some x.2 := OrderedMap.get?_of_mem h.nodup hx
  have hget' : c.entries.get? y.1 = some y.2 := OrderedMap.get?_of_mem h.nodup hy
  rw [hkey, hget'] at hget
  exact Prod.ext hkey (Option.some_inj.mp hget).symm

/-- **An accepted translation joins those that are held.** -/
theorem Contents.accepted (h : Contents compiler past c) (hadded : Accepted compiler c t c') :
    Contents compiler (past ++ [t]) c' := by
  obtain ⟨hrepresents, hkeys⟩ := hadded.represents h.represents
  refine ⟨hrepresents, hadded.rooted, ?_, ?_⟩
  · intro p
    rw [hkeys, h.paths]
    simp only [List.mem_append, List.mem_singleton, or_and_right, exists_or, exists_eq_left]
  · -- Only the entry of the key of `t` changes, and the others have other paths.
    have hskip : ∀ entry ∈ c.entries, entry.1 ≠ t.path.key →
        entry.2.Records compiler (past ++ [t]) := by
      intro entry hentry hkey
      refine (h.records entry hentry).skip fun hsame => hkey ?_
      rw [h.represents.keyed entry hentry, hsame, Entry.key]
    intro entry hentry
    cases hadded with
    | @defined arena parent segment compiled hd hrooted hpath hfree hkey hcompiled =>
      rcases (OrderedMap.mem_put_iff h.represents.nodup).mp hentry with rfl | ⟨hother, hold⟩
      · refine (Entry.records_new ?_ compiled.signature).add rfl hcompiled rfl
        intro u hu hsame
        obtain ⟨other, hother, hop⟩ := mem_ledger_keys.mp ((h.paths t.path).mpr ⟨u, hu, hsame⟩)
        have hmem := OrderedMap.mem_keys hother
        rw [h.represents.keyed other hother, Entry.key, hop] at hmem
        exact OrderedMap.get?_eq_none.mp hkey hmem
      · exact hskip entry hold hother
    | @extended arena parent e compiled hd hrooted hkey hpath hcompiled hs =>
      have hekey : e.key = t.path.key := congrArg KeyPath.key hpath
      rcases (OrderedMap.mem_put_iff h.represents.nodup).mp hentry with rfl | ⟨hother, hold⟩
      · exact (h.records _ (OrderedMap.mem_of_get? hkey)).add hpath.symm hcompiled hs
      · exact hskip entry hold (hekey ▸ hother)

/-- The locales play no role in what a catalogue holds. -/
theorem Contents.withLocales (h : Contents compiler past c) (locales : List Text) :
    Contents compiler past { c with locales } :=
  ⟨⟨h.represents.ledger, h.represents.keyed, h.represents.nodup, h.represents.sound,
    h.represents.kind?⟩, h.rooted, h.paths, h.records⟩

/-- **A catalogue holds the texts of the documents** that were added to it. -/
theorem contents_addDocuments {guard : NestingGuard} {documents : List Document}
    (h : (addDocuments compiler guard {} documents).outcome = .ok c) :
    Contents compiler (translationsOf documents) c := by
  refine addDocuments_translations ?_ ?_ (contents_empty compiler) h
  · intro past c locales hc
    exact hc.withLocales locales
  · intro past c c' t hc htext
    exact hc.accepted (hc.represents.accepted hc.rooted htext)

end Contents

end Catalogue

end Phrasebook
