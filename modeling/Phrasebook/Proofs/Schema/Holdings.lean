import Mathlib.Data.List.Permutation
import Phrasebook.Proofs.Schema.Contents
import Phrasebook.Proofs.Template.Names

/-! # What a merge holds

After documents were added, the tree has a leaf at just the paths of their texts and an interior
node at just the beginnings of these paths, every node but the root has one parent, and the entry of
a path has what the compiler gave for the last text of each locale there (`Catalogue.Holds`,
`Catalogue.holds_addDocuments`). -/

namespace Phrasebook

/-! ### Texts of documents -/

/-- Some document has a text at the path. -/
def HasText (documents : List Document) (path : KeyPath) : Prop :=
  ∃ d ∈ documents, ∃ t, d.tree.At path.segments (.text t)

/-- Some document of the locale has a text at the path. -/
def HasTextIn (documents : List Document) (locale : Text) (path : KeyPath) : Prop :=
  ∃ d ∈ documents, d.locale = locale ∧ ∃ t, d.tree.At path.segments (.text t)

/-- **The last document of a locale that has a text at a path** has this one there. -/
def LastText (documents : List Document) (locale : Text) (path : KeyPath) (t : Text) : Prop :=
  ∃ before d after, documents = before ++ d :: after ∧ d.locale = locale ∧
    d.tree.At path.segments (.text t) ∧ ¬HasTextIn after locale path

/-- A compiler gives a script of the parts to each template with formatters. -/
def Compiler.Complete (compiler : Compiler) : Prop :=
  ∀ t compiled, compiler t = .ok compiled → compiled.signature.hasFormatters = true →
    compiled.fragment.isSome = true

section Texts
variable {documents : List Document} {compiler : Compiler} {locale : Text} {path : KeyPath}

theorem hasText_iff : HasText documents path ↔ ∃ t ∈ translationsOf documents, t.path = path := by
  simp only [mem_translationsOf]
  constructor
  · rintro ⟨d, hd, t, hat⟩
    exact ⟨⟨d.locale, path, t⟩, ⟨d, hd, rfl, hat⟩, rfl⟩
  · rintro ⟨t, ⟨d, hd, -, hat⟩, rfl⟩
    exact ⟨d, hd, t.text, hat⟩

theorem hasTextIn_iff : HasTextIn documents locale path ↔
    ∃ t ∈ translationsOf documents, t.locale = locale ∧ t.path = path := by
  simp only [mem_translationsOf]
  constructor
  · rintro ⟨d, hd, rfl, t, hat⟩
    exact ⟨⟨d.locale, path, t⟩, ⟨d, hd, rfl, hat⟩, rfl, rfl⟩
  · rintro ⟨t, ⟨d, hd, hlocale, hat⟩, rfl, rfl⟩
    exact ⟨d, hd, hlocale.symm, t.text, hat⟩

section Compiled
variable (hcompiles : ∀ t ∈ translationsOf documents, t.path = path →
  ∃ compiled, compiler t.text = .ok compiled)
include hcompiles

/-- A locale has no output at a path just if it has no text there. -/
theorem getLast?_outputs_eq_none :
    (outputs compiler (translationsOf documents) locale path).getLast? = none ↔
      ¬HasTextIn documents locale path := by
  rw [List.getLast?_eq_none_iff, List.eq_nil_iff_forall_not_mem, hasTextIn_iff]
  constructor
  · rintro hnone ⟨t, ht, hlocale, hpath⟩
    obtain ⟨compiled, hcompiled⟩ := hcompiles t ht hpath
    exact hnone compiled (mem_outputs.mpr ⟨t, ht, hlocale, hpath, hcompiled⟩)
  · intro hnone compiled hmem
    obtain ⟨t, ht, hlocale, hpath, -⟩ := mem_outputs.mp hmem
    exact hnone ⟨t, ht, hlocale, hpath⟩

/-- **The last output** is that of the last text. -/
theorem exists_lastText {compiled : CompiledTemplate}
    (hlast : (outputs compiler (translationsOf documents) locale path).getLast? = some compiled) :
    ∃ t, LastText documents locale path t ∧ compiler t = .ok compiled := by
  induction documents using List.reverseRecOn with
  | nil => cases hlast
  | append_singleton documents d ih =>
    have hsplit : translationsOf (documents ++ [d]) = translationsOf documents ++ d.translations := by
      unfold translationsOf
      rw [List.flatMap_append, List.flatMap_singleton]
    have hsplit' : outputs compiler (translationsOf (documents ++ [d])) locale path =
        outputs compiler (translationsOf documents) locale path ++
          outputs compiler d.translations locale path := by
      rw [hsplit, outputs_append]
    rw [hsplit] at hcompiles
    rw [hsplit'] at hlast
    obtain ⟨hbefore, hlatest⟩ := List.forall_mem_append.mp hcompiles
    rcases List.eq_nil_or_concat (outputs compiler d.translations locale path) with
      hnone | ⟨front, last, hsome⟩
    · -- The last document has no text of the locale there, so it does not matter.
      rw [hnone, List.append_nil] at hlast
      obtain ⟨t, ⟨before, e, after, rfl, hlocale, hat, hafter⟩, hcompiled⟩ := ih hbefore hlast
      refine ⟨t, ⟨before, e, after ++ [d], by simp, hlocale, hat, ?_⟩, hcompiled⟩
      rintro ⟨other, hother, holocale, u, hu⟩
      rcases List.mem_append.mp hother with hother | hother
      · exact hafter ⟨other, hother, holocale, u, hu⟩
      · obtain rfl := List.mem_singleton.mp hother
        have hmem : ⟨other.locale, path, u⟩ ∈ other.translations :=
          Document.mem_translations.mpr ⟨rfl, hu⟩
        obtain ⟨output, houtput⟩ := hlatest _ hmem rfl
        have hin := mem_outputs.mpr ⟨_, hmem, holocale, rfl, houtput⟩
        rw [hnone] at hin
        cases hin
    · rw [hsome, List.concat_eq_append, ← List.append_assoc, List.getLast?_concat] at hlast
      cases hlast
      have hin : compiled ∈ outputs compiler d.translations locale path := by
        rw [hsome, List.concat_eq_append]
        exact List.mem_concat_self
      obtain ⟨t, ht, hlocale, hpath, hcompiled⟩ := mem_outputs.mp hin
      obtain ⟨hdlocale, hat⟩ := Document.mem_translations.mp ht
      rw [hpath] at hat
      refine ⟨t.text, ⟨documents, d, [], rfl, hdlocale.symm.trans hlocale, hat, ?_⟩, hcompiled⟩
      rintro ⟨other, hother, -⟩
      cases hother

end Compiled

end Texts

/-! ### Entries -/

/-- **An entry holds the texts of documents** at its path. -/
structure Entry.Holds (compiler : Compiler) (documents : List Document) (e : Entry) : Prop where
  /-- Its locales are those of the documents with a text there, each once. -/
  locales : ∀ locale, locale ∈ e.expressions.keys ↔ HasTextIn documents locale e.path
  nodup : e.expressions.keys.Nodup
  /-- Each text there has the signature of the entry. -/
  signature : ∀ d ∈ documents, ∀ t, d.tree.At e.path.segments (.text t) →
    ∃ compiled, compiler t = .ok compiled ∧ compiled.signature = e.signature
  /-- The script of a locale is that of its last text there. -/
  expression : ∀ locale, HasTextIn documents locale e.path →
    ∃ t compiled, LastText documents locale e.path t ∧ compiler t = .ok compiled ∧
      e.expressions.get? locale = some compiled.expression ∧
        (compiler.Complete → e.signature.hasFormatters = true →
          e.fragments.get? locale = compiled.fragment)
  /-- With formatters the same locales have a script of the parts, else no locale. -/
  fragments : compiler.Complete → ∀ locale, locale ∈ e.fragments.keys ↔
    e.signature.hasFormatters = true ∧ HasTextIn documents locale e.path
  fragments_nodup : e.fragments.keys.Nodup

theorem getLast?_filterMap_of_eq_some {α β : Type} {f : α → Option β} {xs : List α} {x : α} {y : β}
    (hx : xs.getLast? = some x) (hy : f x = some y) : (xs.filterMap f).getLast? = some y := by
  obtain ⟨front, rfl⟩ := List.getLast?_eq_some_iff.mp hx
  rw [List.filterMap_append, List.filterMap_cons_some hy, List.filterMap_nil, List.getLast?_concat]

theorem Entry.Records.holds {compiler : Compiler} {documents : List Document} {e : Entry}
    (h : e.Records compiler (translationsOf documents)) : e.Holds compiler documents := by
  have hcompiles : ∀ t ∈ translationsOf documents, t.path = e.path →
      ∃ compiled, compiler t.text = .ok compiled := by
    intro t ht hpath
    obtain ⟨compiled, hcompiled, -⟩ := h.signature t ht hpath
    exact ⟨compiled, hcompiled⟩
  have hlast : ∀ locale, HasTextIn documents locale e.path → ∃ compiled,
      (outputs compiler (translationsOf documents) locale e.path).getLast? = some compiled ∧
        compiled.signature = e.signature := by
    intro locale hhas
    have hsome : (outputs compiler (translationsOf documents) locale e.path).getLast? ≠ none :=
      fun hnone => (getLast?_outputs_eq_none hcompiles).mp hnone hhas
    obtain ⟨compiled, hcompiled⟩ := Option.ne_none_iff_exists'.mp hsome
    obtain ⟨t, ht, -, hpath, htext⟩ := mem_outputs.mp (List.mem_of_getLast? hcompiled)
    obtain ⟨other, hother, hs⟩ := h.signature t ht hpath
    rw [htext] at hother
    cases hother
    exact ⟨compiled, hcompiled, hs⟩
  have hfragment : compiler.Complete → e.signature.hasFormatters = true → ∀ locale compiled,
      (outputs compiler (translationsOf documents) locale e.path).getLast? = some compiled →
        compiled.signature = e.signature →
          compiled.fragment.isSome = true ∧ e.fragments.get? locale = compiled.fragment := by
    intro hcomplete hformatters locale compiled hcompiled hs
    obtain ⟨t, -, htext⟩ := exists_lastText hcompiles hcompiled
    have hsome := hcomplete t compiled htext (hs.symm ▸ hformatters)
    obtain ⟨fragment, hfragment⟩ := Option.isSome_iff_exists.mp hsome
    refine ⟨hsome, ?_⟩
    rw [h.fragment, if_pos hformatters, getLast?_filterMap_of_eq_some hcompiled hfragment, hfragment]
  refine ⟨?_, h.expressions_nodup, ?_, ?_, ?_, h.fragments_nodup⟩
  · intro locale
    rw [← not_iff_not, ← OrderedMap.get?_eq_none, h.expression, Option.map_eq_none_iff,
      getLast?_outputs_eq_none hcompiles]
  · intro d hd t hat
    exact h.signature ⟨d.locale, e.path, t⟩ (mem_translationsOf.mpr ⟨d, hd, rfl, hat⟩) rfl
  · intro locale hhas
    obtain ⟨compiled, hcompiled, hs⟩ := hlast locale hhas
    obtain ⟨t, ht, htext⟩ := exists_lastText hcompiles hcompiled
    refine ⟨t, compiled, ht, htext, ?_, ?_⟩
    · rw [h.expression, hcompiled, Option.map_some]
    · intro hcomplete hformatters
      exact (hfragment hcomplete hformatters locale compiled hcompiled hs).2
  · intro hcomplete locale
    rw [OrderedMap.mem_keys_iff]
    constructor
    · rintro ⟨fragment, hget⟩
      rw [h.fragment] at hget
      split_ifs at hget with hformatters
      refine ⟨hformatters, ?_⟩
      by_contra hhas
      have hnone := List.getLast?_eq_none_iff.mp ((getLast?_outputs_eq_none hcompiles).mpr hhas)
      rw [hnone] at hget
      cases hget
    · rintro ⟨hformatters, hhas⟩
      obtain ⟨compiled, hcompiled, hs⟩ := hlast locale hhas
      obtain ⟨hsome, hget⟩ := hfragment hcomplete hformatters locale compiled hcompiled hs
      obtain ⟨fragment, hfragment⟩ := Option.isSome_iff_exists.mp hsome
      exact ⟨fragment, hget.trans hfragment⟩

/-! ### The tree -/

namespace Arena

/-- A node is the child of another under a name. -/
def IsChild (a : Arena) (parent : Nat) (segment : Segment) (child : Nat) : Prop :=
  ∃ n, a.node? parent = some n ∧ (segment, child) ∈ n.children

/-- A function lists the keys of the leaves below each node depth first: those below one child after
the other, in the order of the children. -/
structure DepthFirst (a : Arena) (keysBelow : Nat → List Text) : Prop where
  leaf : ∀ {id path}, a.node? id = some (.leaf path) → keysBelow id = [path.key]
  interior : ∀ {id path children}, a.node? id = some (.interior path children) →
    keysBelow id = children.flatMap fun child => keysBelow child.2

theorem Rooted.depthFirst {a : Arena} (h : a.Rooted) :
    a.DepthFirst fun id => (a.outlineAt id).leaves.map KeyPath.key where
  leaf hn := by
    rw [h.outlineAt_leaf hn, Outline.leaves, List.map_singleton]
  interior hn := by
    rw [h.leaves_interior hn, List.map_flatMap]

end Arena

/-- **The tree of documents**: its nodes form a tree with the root as its first node, and a node is
where the documents have a text or the beginning of one. -/
structure Arena.Holds (documents : List Document) (a : Arena) : Prop where
  root : ∃ children, a.node? 0 = some (.interior .root children)
  /-- Every other node has exactly one parent. -/
  parent : ∀ id n, a.node? id = some n → id ≠ 0 → ∃ parent segment,
    a.IsChild parent segment id ∧ ∀ q s, a.IsChild q s id → q = parent ∧ s = segment
  /-- A child is a node with a greater number and a path one step longer. -/
  child : ∀ id segment child, a.IsChild id segment child → id < child ∧
    ∃ n m, a.node? id = some n ∧ a.node? child = some m ∧ m.path = n.path.child segment
  /-- Below every interior node but the root there is a leaf. -/
  leafBelow : ∀ id path children, a.node? id = some (.interior path children) → id ≠ 0 →
    ∃ steps leaf p, a.follow? id steps = some leaf ∧ a.node? leaf = some (.leaf p)
  /-- What is found at a path has this path. -/
  found : ∀ p n, a.find? p = some n → n.path = p
  /-- A leaf is where a document has a text. -/
  leaf : ∀ p, a.find? p = some (.leaf p) ↔ HasText documents p
  /-- An interior node is where the path of a text begins. -/
  interior : ∀ p, (∃ children, a.find? p = some (.interior p children)) ↔
    p = .root ∨ ∃ q, HasText documents q ∧ p.segments <+: q.segments ∧ p ≠ q

/-- **A catalogue holds documents.** -/
structure Catalogue.Holds (compiler : Compiler) (documents : List Document) (c : Catalogue) :
    Prop where
  tree : c.arena.Holds documents
  /-- Each entry stands under the key of its path, and each path of a text has exactly one. -/
  keyed : ∀ key e, (key, e) ∈ c.entries → key = e.path.key ∧ HasText documents e.path
  entry : ∀ p, HasText documents p →
    ∃ e, (p.key, e) ∈ c.entries ∧ e.path = p ∧ ∀ x ∈ c.entries, x.2.path = p → x = (p.key, e)
  nodup : c.entries.keys.Nodup
  entries : ∀ key e, (key, e) ∈ c.entries → e.Holds compiler documents
  /-- The missing keys of a locale are those that it does not define, in the order of the tree. -/
  missing : ∃ keysBelow, c.arena.DepthFirst keysBelow ∧ (keysBelow 0).Nodup ∧ ∀ locale,
    (c.missing locale).Sublist (keysBelow 0) ∧ ∀ key, key ∈ c.missing locale ↔
      ∃ p, HasText documents p ∧ p.key = key ∧ ¬HasTextIn documents locale p

namespace Catalogue.Contents

variable {compiler : Compiler} {documents : List Document} {c : Catalogue}
  (h : Contents compiler (translationsOf documents) c)
include h

theorem mem_keys {p : KeyPath} : p ∈ c.ledger.keys ↔ HasText documents p := by
  rw [h.paths, hasText_iff]

theorem find?_leaf {p : KeyPath} :
    c.arena.find? p = some (.leaf p) ↔ HasText documents p := by
  rw [h.rooted.toSound.find?_leaf, h.represents.kind?, Ledger.kind?_eq_leaf, h.mem_keys]

theorem find?_interior {p : KeyPath} :
    (∃ children, c.arena.find? p = some (.interior p children)) ↔
      p = .root ∨ ∃ q, HasText documents q ∧ p.segments <+: q.segments ∧ p ≠ q := by
  rw [h.rooted.toSound.find?_interior]
  constructor
  · intro hkind
    rw [h.represents.kind?, Ledger.kind?_eq_interior] at hkind
    obtain ⟨-, hroot | ⟨q, hq, hancestor⟩⟩ := hkind
    · exact Or.inl hroot
    · exact Or.inr ⟨q, h.mem_keys.mp hq, (KeyPath.mem_ancestors.mp hancestor).2⟩
  · rintro (rfl | ⟨q, hq, hbegins, hne⟩)
    · exact h.rooted.toSound.kind?_root
    · by_cases hroot : p = .root
      · rw [hroot]
        exact h.rooted.toSound.kind?_root
      · have hancestor := KeyPath.mem_ancestors.mpr ⟨hroot, hbegins, hne⟩
        have hkey := h.mem_keys.mpr hq
        rw [h.represents.kind?, Ledger.kind?_eq_interior]
        exact ⟨fun hp => h.represents.not_mem_ancestors hp hkey hancestor, Or.inr ⟨q, hkey, hancestor⟩⟩

/-- **The tree is that of the documents.** -/
theorem holds_arena : c.arena.Holds documents where
  root := by
    obtain ⟨children, hroot⟩ := h.find?_interior.mpr (Or.inl rfl)
    exact ⟨children, hroot⟩
  parent := by
    intro id n hn hid
    obtain ⟨parent, m, segment, hm, hmem, -, -⟩ := h.rooted.exists_parent hn hid
    refine ⟨parent, segment, ⟨m, hm, hmem⟩, ?_⟩
    rintro q s ⟨k, hk, hkmem⟩
    exact h.rooted.parent_unique hk hm hkmem hmem
  child := by
    rintro id segment child ⟨n, hn, hmem⟩
    obtain ⟨hlt, m, hm, hpath⟩ := h.rooted.child_spec hn hmem
    exact ⟨hlt, n, m, hn, hm, hpath⟩
  leafBelow := by
    intro id path children hn hid
    have hfound : c.arena.find? path = some (.interior path children) := h.rooted.find?_path hn
    rcases h.find?_interior.mp ⟨children, hfound⟩ with rfl | ⟨q, hq, ⟨rest, hrest⟩, -⟩
    · have hreached := h.rooted.reached hn
      cases hreached
      exact absurd rfl hid
    · obtain ⟨leaf, hleaf, hnode⟩ := Option.bind_eq_some_iff.mp (h.find?_leaf.mpr hq)
      have hreached : c.arena.follow? Arena.root path.segments = some id := h.rooted.reached hn
      rw [← hrest, Arena.follow?_append, hreached, Option.bind_some] at hleaf
      exact ⟨rest, leaf, q, hleaf, hnode⟩
  found p n hn := h.rooted.toSound.path_of_find? hn
  leaf p := h.find?_leaf
  interior p := h.find?_interior

theorem exists_entry {p : KeyPath} (hp : HasText documents p) :
    ∃ e, c.entries.get? p.key = some e ∧ e.path = p := by
  obtain ⟨e, hget, hpath, -⟩ := h.represents.exists_entry (h.mem_keys.mpr hp)
  exact ⟨e, hget, hpath⟩

theorem translates_iff {p : KeyPath} (hp : HasText documents p) (locale : Text) :
    c.translates locale p.key = true ↔ HasTextIn documents locale p := by
  obtain ⟨e, hget, rfl⟩ := h.exists_entry hp
  rw [← (h.records _ (OrderedMap.mem_of_get? hget)).holds.locales locale, OrderedMap.mem_keys_iff]
  unfold translates
  rw [hget, Option.bind_some, Option.isSome_iff_exists]

theorem nodup_keys : c.arena.keys.Nodup := by
  refine List.Nodup.map_on ?_ h.rooted.nodup_leaves
  intro p hp q hq hkey
  obtain ⟨e, hget, rfl⟩ := h.exists_entry (h.find?_leaf.mp (h.rooted.mem_leaves.mp hp))
  obtain ⟨f, hget', rfl⟩ := h.exists_entry (h.find?_leaf.mp (h.rooted.mem_leaves.mp hq))
  rw [hkey, hget'] at hget
  cases hget
  rfl

theorem mem_missing {locale key : Text} : key ∈ c.missing locale ↔
    ∃ p, HasText documents p ∧ p.key = key ∧ ¬HasTextIn documents locale p := by
  unfold missing Arena.keys
  rw [List.mem_filter, List.mem_map]
  constructor
  · rintro ⟨⟨p, hp, rfl⟩, hmissing⟩
    have htext := h.find?_leaf.mp (h.rooted.mem_leaves.mp hp)
    refine ⟨p, htext, rfl, fun hhas => ?_⟩
    rw [(h.translates_iff htext locale).mpr hhas] at hmissing
    cases hmissing
  · rintro ⟨p, htext, rfl, hhas⟩
    refine ⟨⟨p, h.rooted.mem_leaves.mpr (h.find?_leaf.mpr htext), rfl⟩, ?_⟩
    rw [Bool.not_eq_true', Bool.eq_false_iff]
    exact fun htranslates => hhas ((h.translates_iff htext locale).mp htranslates)

/-- **A catalogue with the translations of documents** holds them. -/
theorem holds : c.Holds compiler documents where
  tree := h.holds_arena
  keyed key e hmem := by
    refine ⟨h.represents.keyed _ hmem, ?_⟩
    exact h.mem_keys.mp (mem_ledger_keys.mpr ⟨_, hmem, rfl⟩)
  entry p hp := by
    obtain ⟨e, hget, rfl⟩ := h.exists_entry hp
    have hmem := OrderedMap.mem_of_get? hget
    exact ⟨e, hmem, rfl, fun x hx hpath => h.represents.entry_unique hx hmem hpath⟩
  nodup := h.represents.nodup
  entries key e hmem := (h.records _ hmem).holds
  missing := by
    refine ⟨_, h.rooted.depthFirst, h.nodup_keys, fun locale => ⟨?_, fun key => h.mem_missing⟩⟩
    exact List.filter_sublist

end Catalogue.Contents

/-! ### Adding documents -/

theorem Template.complete_compiler : Compiler.Complete Template.compiler := by
  intro t compiled hcompiled hformatters
  obtain ⟨elements, s, -, -, rfl⟩ := compile_eq_ok (compiler_eq_ok.mp hcompiled)
  show (fragmentScript s elements).isSome = true
  unfold fragmentScript
  rw [if_pos hformatters]
  rfl

/-- **A catalogue holds the documents that were added to it**, whatever the compiler; and that of
brace templates gives a script of the parts to each template with formatters. -/
theorem Catalogue.holds_addDocuments {compiler : Compiler} {guard : NestingGuard}
    {documents : List Document} {c : Catalogue}
    (h : (addDocuments compiler guard {} documents).outcome = .ok c) :
    c.Holds compiler documents ∧ Compiler.Complete Template.compiler :=
  ⟨(contents_addDocuments h).holds, Template.complete_compiler⟩

set_option maxRecDepth 2000 in
/-- Two locales, of which one has two documents, with a formatter and nested keys. -/
theorem Catalogue.holds_addDocuments_locales :
    let documents : List Document :=
      [{ locale := "en", tree := .map [(.text "a", .map [(.text "x", .text "\x7bf: n\x7d"),
          (.text "y", .text "y")]), (.text "b", .list [.text "0", .null])] },
        { locale := "de", tree := .map [(.text "a", .map [(.text "x", .text "\x7bf:\x7d!")])] },
        { locale := "en", tree := .map [(.text "a", .map [(.text "x", .text "\x7bf:N\x7d")])] }]
    ∃ c, (addDocuments Template.compiler (.ofLimit 3) {} documents).outcome = .ok c ∧
      c.Holds Template.compiler documents ∧ Compiler.Complete Template.compiler := by
  intro documents
  have hok : (addDocuments Template.compiler (.ofLimit 3) {} documents).outcome.isOk = true := by
    cbv
  obtain ⟨c, hc⟩ := Except.exists_eq_ok hok
  exact ⟨c, hc, holds_addDocuments hc⟩

end Phrasebook
