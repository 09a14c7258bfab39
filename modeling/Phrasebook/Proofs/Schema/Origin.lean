import Phrasebook.Proofs.Document.Lookup
import Phrasebook.Proofs.Document.Traversal
import Phrasebook.Proofs.Schema.Holdings

/-! # The origin of the texts of a schema

A walk through a document yields its texts with their paths, up to the first container that the
guard refuses (`Visit.yielded`). It yields each text once, at a path that leads back to it
(`Datum.Keyed.retraced`). The path of an entry of a merged schema, too, leads back to the text that
the script of a locale was compiled from (`Catalogue.origin_of_addDocuments`). -/

namespace Phrasebook

/-! ### What a walk yields -/

namespace Visit

/-- **The texts that a walk yields** with their paths, before it fails. -/
def yielded : List Visit → List (KeyPath × Text)
  | [] => []
  | .text path value :: rest => (path, value) :: yielded rest
  | .skipped _ _ :: rest => yielded rest
  | .refused _ :: _ => []

theorem complete_text {path : KeyPath} {value : Text} {rest : List Visit} :
    Complete (.text path value :: rest) ↔ Complete rest := by
  simp [Complete]

theorem complete_skipped {path : KeyPath} {typeName : Text} {rest : List Visit} :
    Complete (.skipped path typeName :: rest) ↔ Complete rest := by
  simp [Complete]

theorem yielded_append_of_complete {xs : List Visit} (h : Complete xs) (ys : List Visit) :
    yielded (xs ++ ys) = texts xs ++ yielded ys := by
  induction xs with
  | nil => rfl
  | cons visit rest ih =>
    cases visit with
    | text path value =>
      have hrest := ih (complete_text.mp h)
      rw [List.cons_append, yielded, hrest]
      rfl
    | skipped path typeName => exact ih (complete_skipped.mp h)
    | refused problem => exact absurd List.mem_cons_self (h problem)

theorem yielded_of_complete {xs : List Visit} (h : Complete xs) : yielded xs = texts xs := by
  have happend := yielded_append_of_complete h []
  rwa [List.append_nil, yielded, List.append_nil] at happend

theorem yielded_append_of_not_complete {xs : List Visit} (h : ¬Complete xs) (ys : List Visit) :
    yielded (xs ++ ys) = yielded xs := by
  induction xs with
  | nil => exact absurd (fun _ => List.not_mem_nil) h
  | cons visit rest ih =>
    cases visit with
    | text path value =>
      have hrest := ih (mt complete_text.mpr h)
      rw [List.cons_append, yielded, yielded, hrest]
    | skipped path typeName => exact ih (mt complete_skipped.mpr h)
    | refused problem => rfl

/-- What two walks yield one after the other begins what their trees hold, if the first does. -/
theorem prefix_yielded_append {xs ys : List Visit} {first rest : List (KeyPath × Text)}
    (hcomplete : Complete xs → texts xs = first) (hfirst : yielded xs <+: first)
    (hrest : yielded ys <+: rest) : yielded (xs ++ ys) <+: first ++ rest := by
  by_cases h : Complete xs
  · rw [yielded_append_of_complete h, hcomplete h]
    exact (List.prefix_append_right_inj first).mpr hrest
  · rw [yielded_append_of_not_complete h]
    exact hfirst.trans (List.prefix_append first rest)

end Visit

namespace Datum

mutual

/-- **A walk yields the first texts of a tree.** -/
theorem prefix_yielded_visits : ∀ (tree : Datum Foreign) (guard : NestingGuard) (path : KeyPath),
    Visit.yielded (tree.visits guard path) <+: Ledger.texts (tree.subtrees path)
  | .map entries, guard, path => by
    rw [visits, subtrees]
    cases guard.enter path.key with
    | error problem => exact List.nil_prefix
    | ok inside => exact prefix_yielded_visitsOfEntries entries inside path
  | .list items, guard, path => by
    rw [visits, subtrees]
    cases guard.enter path.key with
    | error problem => exact List.nil_prefix
    | ok inside => exact prefix_yielded_visitsOfItems items inside path 0
  | .text _, _, _ | .null, _, _ | .bool _, _, _ | .number _, _, _ | .tuple _, _, _
  | .other _, _, _ => by
    rw [visits, subtrees_of_not_container rfl]
    exact List.prefix_refl _

theorem prefix_yielded_visitsOfItems : ∀ (items : List (Datum Foreign)) (guard : NestingGuard)
    (path : KeyPath) (position : Nat),
      Visit.yielded (visitsOfItems guard path position items) <+:
        Ledger.texts (subtreesOfItems path position items)
  | [], guard, path, position => by
    rw [visitsOfItems]
    exact List.nil_prefix
  | item :: rest, guard, path, position => by
    rw [visitsOfItems, subtreesOfItems, Ledger.texts_append]
    exact Visit.prefix_yielded_append (texts_visits item guard _)
      (prefix_yielded_visits item guard _) (prefix_yielded_visitsOfItems rest guard path _)

theorem prefix_yielded_visitsOfEntries : ∀ (entries : List (DatumKey × Datum Foreign))
    (guard : NestingGuard) (path : KeyPath),
      Visit.yielded (visitsOfEntries guard path entries) <+:
        Ledger.texts (subtreesOfEntries path entries)
  | [], guard, path => by
    rw [visitsOfEntries]
    exact List.nil_prefix
  | (key, value) :: rest, guard, path => by
    rw [visitsOfEntries, subtreesOfEntries, Ledger.texts_append]
    exact Visit.prefix_yielded_append (texts_visits value guard _)
      (prefix_yielded_visits value guard _) (prefix_yielded_visitsOfEntries rest guard path)

end

section Complete
variable {limit : Int}

theorem shallow_container {tree : Datum Foreign} (h : tree.isContainer = true) {path : KeyPath}
    {values : List (KeyPath × Datum Foreign)} : Ledger.Shallow limit ((path, tree) :: values) ↔
      (path.depth : Int) < limit ∧ Ledger.Shallow limit values := by
  unfold Ledger.Shallow
  rw [List.forall_mem_cons]
  exact and_congr_left fun _ => ⟨fun hdepth => hdepth h, fun hdepth _ => hdepth⟩

theorem not_complete_refused (problem : Problem) : ¬Visit.Complete [.refused problem] :=
  fun h => h problem List.mem_cons_self

mutual

/-- **A walk goes through a tree** just if the containers in it are not too deep. -/
theorem complete_visits : ∀ (tree : Datum Foreign) (path : KeyPath),
    Visit.Complete (tree.visits ⟨limit, path.depth⟩ path) ↔
      Ledger.Shallow limit (tree.subtrees path)
  | .map entries, path => by
    rw [visits, subtrees, shallow_container rfl, NestingGuard.enter]
    by_cases hdeep : limit ≤ path.depth
    · rw [if_pos hdeep]
      exact iff_of_false (not_complete_refused _) fun h => Int.not_le.mpr h.1 hdeep
    · rw [if_neg hdeep, and_iff_right (Int.not_le.mp hdeep)]
      exact complete_visitsOfEntries entries path
  | .list items, path => by
    rw [visits, subtrees, shallow_container rfl, NestingGuard.enter]
    by_cases hdeep : limit ≤ path.depth
    · rw [if_pos hdeep]
      exact iff_of_false (not_complete_refused _) fun h => Int.not_le.mpr h.1 hdeep
    · rw [if_neg hdeep, and_iff_right (Int.not_le.mp hdeep)]
      exact complete_visitsOfItems items path 0
  | .text _, path | .null, path | .bool _, path | .number _, path | .tuple _, path
  | .other _, path => by
    rw [visits, subtrees_of_not_container rfl]
    simp [Visit.Complete, Ledger.Shallow, isContainer]

theorem complete_visitsOfItems : ∀ (items : List (Datum Foreign)) (path : KeyPath)
    (position : Nat),
      Visit.Complete (visitsOfItems ⟨limit, (path.depth + 1 : Nat)⟩ path position items) ↔
        Ledger.Shallow limit (subtreesOfItems path position items)
  | [], path, position => by
    rw [visitsOfItems, subtreesOfItems]
    exact iff_of_true nofun (List.forall_mem_nil _)
  | item :: rest, path, position => by
    have hitem := complete_visits item (path.child (.name (Numeral.ofNat position)))
    rw [KeyPath.depth_child] at hitem
    rw [visitsOfItems, subtreesOfItems, Visit.complete_append, Ledger.shallow_append, hitem,
      complete_visitsOfItems rest path (position + 1)]

theorem complete_visitsOfEntries : ∀ (entries : List (DatumKey × Datum Foreign)) (path : KeyPath),
    Visit.Complete (visitsOfEntries ⟨limit, (path.depth + 1 : Nat)⟩ path entries) ↔
      Ledger.Shallow limit (subtreesOfEntries path entries)
  | [], path => by
    rw [visitsOfEntries, subtreesOfEntries]
    exact iff_of_true nofun (List.forall_mem_nil _)
  | (key, value) :: rest, path => by
    have hvalue := complete_visits value (path.child (.name key.toText))
    rw [KeyPath.depth_child] at hvalue
    rw [visitsOfEntries, subtreesOfEntries, Visit.complete_append, Ledger.shallow_append, hvalue,
      complete_visitsOfEntries rest path]

end

end Complete

/-! ### From paths back to texts -/

/-- The visits of a walk through a document under a limit. -/
def walk (limit : Int) (tree : Datum Foreign) : List Visit := tree.visits { limit } .root

/-- **A walk through a tree under a limit finds its texts**, and from the paths that it yields the
texts are found again. -/
structure Retraced (limit : Int) (tree : Datum Foreign) : Prop where
  /-- The walk goes through just if no container is inside of as many others as the limit says. -/
  complete : Visit.Complete (tree.walk limit) ↔ ∀ {steps value}, tree.At steps value →
    value.isContainer = true → (steps.length : Int) < limit
  /-- It yields the first texts of the tree in their order, at their paths, no path twice. -/
  first : Visit.yielded (tree.walk limit) <+: Ledger.texts (tree.subtrees .root)
  text : ∀ p t, (p, t) ∈ Visit.yielded (tree.walk limit) → tree.At p.segments (.text t)
  once : ((Visit.yielded (tree.walk limit)).map (·.1)).Nodup
  /-- If it goes through, it yields all texts. -/
  all : Visit.Complete (tree.walk limit) → ∀ p t, tree.At p.segments (.text t) →
    (p, t) ∈ Visit.yielded (tree.walk limit)
  leadsBack : ∀ p t, (p, t) ∈ Visit.yielded (tree.walk limit) → tree.LeadsBack p t

theorem nodup_textPaths {tree : Datum Foreign} (h : tree.Distinct) :
    (textPaths (tree.subtrees .root)).Nodup := by
  refine (pairwise_precedes tree .root h).imp fun {p q} hprecedes => ?_
  rintro rfl
  exact not_precedes_self hprecedes

theorem Keyed.retraced {tree : Datum Foreign} (h : tree.Keyed) (limit : Int) :
    tree.Retraced limit := by
  have hbegins : Visit.yielded (tree.walk limit) <+: Ledger.texts (tree.subtrees .root) :=
    prefix_yielded_visits tree _ .root
  have htext : ∀ p t, (p, t) ∈ Ledger.texts (tree.subtrees .root) ↔
      tree.At p.segments (.text t) := by
    intro p t
    rw [Ledger.mem_texts, mem_subtrees_root]
  have hfound : ∀ p t, (p, t) ∈ Visit.yielded (tree.walk limit) → tree.At p.segments (.text t) :=
    fun p t hmem => (htext p t).mp (hbegins.subset hmem)
  refine ⟨?_, hbegins, hfound, ?_, ?_, fun p t hmem => (hfound p t hmem).leadsBack h⟩
  · refine (complete_visits tree .root).trans ⟨fun hshallow steps value hat => ?_, ?_⟩
    · exact hshallow (⟨steps⟩, value) (mem_subtrees_root.mpr hat)
    · rintro hdepth ⟨path, value⟩ hmem
      exact hdepth (mem_subtrees_root.mp hmem)
  · exact (nodup_textPaths h.distinct).sublist (hbegins.sublist.map _)
  · intro hcomplete p t hat
    rw [Visit.yielded_of_complete hcomplete, walk, texts_visits tree _ _ hcomplete]
    exact (htext p t).mpr hat

end Datum

/-- **The origin of a script**: it was compiled from the text at a path in the last document of its
locale that has a text there, and the path leads back to this text. -/
def Origin (compiler : Compiler) (documents : List Document) (locale : Text) (path : KeyPath)
    (script : Text) : Prop :=
  ∃ before d after t compiled, documents = before ++ d :: after ∧ d.locale = locale ∧
    ¬HasTextIn after locale path ∧ d.tree.LeadsBack path t ∧ compiler t = .ok compiled ∧
      compiled.expression = script

namespace Catalogue

theorem origin_of_addDocuments {compiler : Compiler} {guard : NestingGuard}
    {documents : List Document} {c : Catalogue}
    (h : (addDocuments compiler guard {} documents).outcome = .ok c)
    (hkeyed : ∀ d ∈ documents, d.tree.Keyed) {key : Text} {e : Entry}
    (hentry : (key, e) ∈ c.entries) {locale script : Text}
    (hscript : e.expressions.get? locale = some script) :
    Origin compiler documents locale e.path script := by
  have hholds := (contents_addDocuments h).holds.entries key e hentry
  have hlocale : locale ∈ e.expressions.keys := OrderedMap.mem_keys_iff.mpr ⟨script, hscript⟩
  obtain ⟨t, compiled, ⟨before, d, after, hdocuments, hd, hat, hlast⟩, hcompiled, hget, -⟩ :=
    hholds.expression locale ((hholds.locales locale).mp hlocale)
  rw [hget] at hscript
  cases hscript
  have htree : d.tree.Keyed := by
    refine hkeyed d ?_
    rw [hdocuments]
    exact List.mem_append_right _ List.mem_cons_self
  exact ⟨before, d, after, t, compiled, hdocuments, hd, hlast, hat.leadsBack htree, hcompiled, rfl⟩

/-- **The paths of texts lead back to them.** The trees of decoded documents are keyed. A walk
through a keyed tree yields its texts once each, and their paths lead back to them; so do the paths
of the entries of a schema, for each locale that an entry is translated to. -/
theorem texts_retraced :
    (∀ (text source : Text) (tree : Datum Foreign), Document.decode text source = .ok tree →
      tree.Keyed) ∧
      (∀ tree : Datum Foreign, tree.Keyed → ∀ limit : Int, tree.Retraced limit) ∧
        ∀ (compiler : Compiler) (documents : List Document) (c : Catalogue),
          (∀ d ∈ documents, d.tree.Keyed) →
          ((merge compiler documents).outcome = .ok c ∨
            ∃ guard, (addDocuments compiler guard {} documents).outcome = .ok c) →
            ∀ key e, (key, e) ∈ c.entries → key = e.path.key ∧
              ∀ locale script, e.expressions.get? locale = some script →
                Origin compiler documents locale e.path script := by
  refine ⟨fun text source tree => Document.keyed_decode, fun tree h limit => h.retraced limit, ?_⟩
  intro compiler documents c hkeyed hmerged key e hentry
  obtain ⟨guard, h⟩ : ∃ guard, (addDocuments compiler guard {} documents).outcome = .ok c := by
    rcases hmerged with hmerge | hadded
    · exact ⟨_, merge_eq_ok.mp hmerge⟩
    · exact hadded
  have hkey : key = e.path.key := (contents_addDocuments h).represents.keyed _ hentry
  exact ⟨hkey, fun locale script => origin_of_addDocuments h hkeyed hentry⟩

/-- A text is in a list in one locale and in a mapping in the other. -/
theorem texts_retraced_nested :
    let en : Datum Foreign := .map [(.text "a", .list [.text "A \x7bn\x7d"])]
    let de : Datum Foreign := .map [(.text "a", .map [(.text "0", .text "\x7bn\x7d A")])]
    let documents : List Document :=
      [{ locale := "en", tree := en }, { locale := "de", tree := de }]
    Document.decode "\x7b\"a\": [\"A \x7bn\x7d\"]\x7d" "en.json" = .ok en ∧
      Document.decode "\x7b\"a\": \x7b\"0\": \"\x7bn\x7d A\"\x7d\x7d" "de.json" = .ok de ∧
        en.Retraced 100 ∧
          ∃ c, (merge Template.compiler documents).outcome = .ok c ∧
            ∀ key e, (key, e) ∈ c.entries → key = e.path.key ∧
              ∀ locale script, e.expressions.get? locale = some script →
                Origin Template.compiler documents locale e.path script := by
  intro en de documents
  obtain ⟨hkeyed, hwalk, hmerged⟩ := texts_retraced
  have hen : Document.decode "\x7b\"a\": [\"A \x7bn\x7d\"]\x7d" "en.json" = .ok en := by cbv
  have hde : Document.decode "\x7b\"a\": \x7b\"0\": \"\x7bn\x7d A\"\x7d\x7d" "de.json" =
      .ok de := by
    cbv
  have hdocuments : ∀ d ∈ documents, d.tree.Keyed :=
    List.forall_mem_cons.mpr ⟨hkeyed _ _ en hen,
      List.forall_mem_singleton.mpr (hkeyed _ _ de hde)⟩
  have hok : (merge Template.compiler documents).outcome.isOk = true := by cbv
  obtain ⟨c, hc⟩ := Except.exists_eq_ok hok
  exact ⟨hen, hde, hwalk en (hkeyed _ _ en hen) 100, c, hc,
    hmerged Template.compiler documents c hdocuments (Or.inl hc)⟩

end Catalogue

namespace Datum

/-- A tree in lists of one item, one in the other. -/
def listed (depth : Nat) (tree : Datum Foreign) : Datum Foreign :=
  Nat.repeat (fun tree => .list [tree]) depth tree

theorem at_listed (depth : Nat) (tree : Datum Foreign) :
    (listed depth tree).At (List.replicate depth (.name (Numeral.ofNat 0))) tree := by
  induction depth with
  | zero => exact .here tree
  | succ depth ih => exact .item rfl ih

set_option maxRecDepth 20000 in
/-- The path of an item of a list does not lead back to it as it stands, and under the usual limit a
walk yields no text that is in a hundred lists and one. -/
theorem walk_and_lookup_stop :
    (¬∀ (text source : Text) (tree : Datum Foreign), Document.decode text source = .ok tree →
      ∀ p t, (p, t) ∈ Visit.yielded (tree.walk NestingGuard.usualLimit) →
        p.lookup tree = .ok (.text t)) ∧
      ¬∀ (text source : Text) (tree : Datum Foreign), Document.decode text source = .ok tree →
        ∀ p t, tree.At p.segments (.text t) →
          (p, t) ∈ Visit.yielded (tree.walk NestingGuard.usualLimit) := by
  constructor
  · intro h
    have hdecode : Document.decode "[\"x\"]" "en.json" = .ok (listed 1 (.text "x")) := by cbv
    have hyielded : ((⟨[.name "0"]⟩ : KeyPath), ("x" : Text)) ∈
        Visit.yielded ((listed 1 (.text "x")).walk NestingGuard.usualLimit) := by
      decide
    cases h _ _ _ hdecode _ _ hyielded
  · intro h
    have hdecode : Document.decode (List.replicate 101 (CodePoint.ofChar '[') ++ "\"x\"" ++
        List.replicate 101 (CodePoint.ofChar ']')) "en.json" = .ok (listed 101 (.text "x")) := by
      cbv
    have hyielded :
        Visit.yielded ((listed 101 (.text "x")).walk NestingGuard.usualLimit) = [] := by
      cbv
    have hmem := h _ _ _ hdecode ⟨_⟩ "x" (at_listed 101 (.text "x"))
    rw [hyielded] at hmem
    cases hmem

end Datum

end Phrasebook
