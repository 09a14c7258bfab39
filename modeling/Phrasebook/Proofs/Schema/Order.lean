import Mathlib.Data.List.Sort
import Phrasebook.Proofs.Document.Traversal
import Phrasebook.Proofs.Schema.Holdings

/-! # The order of the keys

The children of a node are in the order in which a traversal of the documents first sees them
(`Arena.Ordered`): a step that is seen for the first time appends a child, and nothing moves a child
later on (`Laid.ordered`). So of two keys that part at a node the one whose branch was seen first
comes first (`Ordered.pairwise_leaves`, `Catalogue.inOrder_merge`). In particular the keys of the
first document stand in the order of its traversal. -/

namespace Phrasebook

/-! ### Positions in a list -/

theorem idxOf_lt_idxOf_iff {α : Type} [BEq α] [LawfulBEq α] {R : α → α → Prop} {xs : List α}
    (h : xs.Pairwise R) (hasymm : ∀ x y, R x y → ¬ R y x) {x y : α} (hx : x ∈ xs) (hy : y ∈ xs)
    (hne : x ≠ y) : xs.idxOf x < xs.idxOf y ↔ R x y := by
  have hrelated : ∀ {u v : α}, u ∈ xs → v ∈ xs → xs.idxOf u < xs.idxOf v → R u v := by
    intro u v hu hv hlt
    have hR := List.pairwise_iff_getElem.mp h (xs.idxOf u) (xs.idxOf v)
      (List.idxOf_lt_length_iff.mpr hu) (List.idxOf_lt_length_iff.mpr hv) hlt
    rwa [List.getElem_idxOf, List.getElem_idxOf] at hR
  constructor
  · exact hrelated hx hy
  · intro hR
    rcases Nat.lt_trichotomy (xs.idxOf x) (xs.idxOf y) with hlt | hsame | hgt
    · exact hlt
    · exact absurd ((List.idxOf_inj hx).mp hsame) hne
    · exact absurd (hrelated hy hx hgt) (hasymm x y hR)

theorem idxOf_map {α β : Type} [BEq α] [LawfulBEq α] [BEq β] [LawfulBEq β] {f : α → β}
    {xs : List α} (hnodup : (xs.map f).Nodup) {x : α} (hx : x ∈ xs) :
    (xs.map f).idxOf (f x) = xs.idxOf x := by
  have hlt : xs.idxOf x < xs.length := List.idxOf_lt_length_iff.mpr hx
  have hindex := hnodup.idxOf_getElem (xs.idxOf x) (by rwa [List.length_map])
  rwa [List.getElem_map, List.getElem_idxOf] at hindex

namespace Arena

/-! ### The order of children -/

/-- **The children of each node are in the order in which they were seen**: in some paths, or in the
steps of one more path. -/
structure Ordered (paths : List KeyPath) (done : List Segment) (a : Arena) : Prop where
  seen : ∀ {id : Nat} {n : Node}, a.node? id = some n → ∀ s, s ∈ n.children.keys ↔
    Seen paths (n.path.segments ++ [s]) ∨ n.path.segments ++ [s] <+: done
  order : ∀ {id : Nat} {n : Node}, a.node? id = some n → n.children.keys.Pairwise fun s t =>
    SeenBefore paths (n.path.segments ++ [s]) (n.path.segments ++ [t])

theorem ordered_empty : Ordered [] [] {} := by
  have hroot : ∀ {id : Nat} {n : Node}, ({} : Arena).node? id = some n →
      n = .interior .root [] := by
    intro id n hn
    cases id with
    | zero => exact (Option.some_inj.mp hn).symm
    | succ id => cases hn
  constructor
  · intro id n hn s
    obtain rfl := hroot hn
    simp [Node.children, OrderedMap.keys, Seen]
  · intro id n hn
    obtain rfl := hroot hn
    exact .nil

section Step
variable {paths : List KeyPath} {done : List Segment} {segment : Segment} {a : Arena} {id : Nat}

theorem concat_prefix_concat {path : List Segment} {s : Segment} :
    path ++ [s] <+: done ++ [segment] ↔ path ++ [s] <+: done ∨ (path = done ∧ s = segment) := by
  rw [List.prefix_concat_iff, or_comm]
  refine or_congr_right ⟨fun h => ?_, fun h => by rw [h.1, h.2]⟩
  obtain ⟨hpath, hs⟩ := List.append_inj' h rfl
  exact ⟨hpath, List.singleton_inj.mp hs⟩

theorem Ordered.old (h : a.Ordered paths done) (hrooted : a.Rooted)
    (hreached : a.follow? Arena.root done = some id) {child : Nat}
    (hchild : a.child? id segment = some child) : a.Ordered paths (done ++ [segment]) where
  seen := by
    intro other n hn s
    rw [h.seen hn, concat_prefix_concat, ← or_assoc]
    refine (or_iff_left_of_imp ?_).symm
    rintro ⟨rfl, rfl⟩
    -- The node at the end of the steps has the child.
    obtain rfl := Option.some_inj.mp ((hrooted.reached hn).symm.trans hreached)
    obtain ⟨m, hm, hget⟩ := child?_eq_some hchild
    rw [hn] at hm
    cases hm
    exact (h.seen hn s).mp (OrderedMap.mem_keys_iff.mpr ⟨child, hget⟩)
  order := h.order

theorem Appendable.node?_cases {child : Node} (hf : a.Appendable id ⟨done⟩ segment child)
    (hrooted : a.Rooted) {children : OrderedMap Segment Nat}
    (hparent : a.node? id = some (.interior ⟨done⟩ children)) {other : Nat} {n : Node}
    (hn : (a.addChild id segment child).1.node? other = some n) :
    n = child ∨ n = .interior ⟨done⟩ (children ++ [(segment, a.size)]) ∨
      a.node? other = some n ∧ n.path.segments ≠ done := by
  obtain ⟨found, hfound, hfree⟩ := hf.node
  rw [hparent] at hfound
  cases hfound
  have hput : children.put segment a.size = children ++ [(segment, a.size)] :=
    OrderedMap.put_of_get?_eq_none hfree
  rw [node?_addChild hf.lt_size] at hn
  split_ifs at hn with hsize hid
  · exact .inl (Option.some_inj.mp hn).symm
  · rw [hid, hparent] at hn
    rw [← hput]
    exact .inr (.inl (Option.some_inj.mp hn).symm)
  · refine .inr (.inr ⟨hn, fun hpath => hid ?_⟩)
    have hreached := hrooted.reached hn
    rw [hpath] at hreached
    exact Option.some_inj.mp (hreached.symm.trans hf.reached)

theorem Ordered.new (h : a.Ordered paths done) (hrooted : a.Rooted) {child : Node}
    (hf : a.Appendable id ⟨done⟩ segment child) :
    (a.addChild id segment child).1.Ordered paths (done ++ [segment]) := by
  obtain ⟨children, hparent, hfree⟩ := hf.node
  have hkeys : (OrderedMap.keys (children ++ [(segment, a.size)])) = children.keys ++ [segment] :=
    List.map_append
  have hold : ∀ s, s ∈ children.keys ↔ Seen paths (done ++ [s]) :=
    fun s => (h.seen hparent s).trans (or_iff_left not_concat_begins)
  have hnew : ¬ Seen paths (done ++ [segment]) := by
    rw [← hold]
    exact OrderedMap.get?_eq_none.mp hfree
  constructor
  · intro other n hn s
    rcases hf.node?_cases hrooted hparent hn with rfl | rfl | ⟨hn, hpath⟩
    · have hpath : n.path.segments = done ++ [segment] := congrArg KeyPath.segments hf.path_child
      rw [hf.children, hpath]
      refine ⟨nofun, ?_⟩
      rintro (⟨p, hp, hbegins⟩ | hbegins)
      · exact absurd ⟨p, hp, (List.prefix_append _ _).trans hbegins⟩ hnew
      · exact absurd hbegins not_concat_begins
    · show s ∈ OrderedMap.keys (children ++ [(segment, a.size)]) ↔
        Seen paths (done ++ [s]) ∨ done ++ [s] <+: done ++ [segment]
      rw [hkeys, List.mem_append, List.mem_singleton, hold, concat_prefix_concat]
      simp [not_concat_begins]
    · rw [h.seen hn, concat_prefix_concat]
      simp [hpath]
  · intro other n hn
    rcases hf.node?_cases hrooted hparent hn with rfl | rfl | ⟨hn, -⟩
    · rw [hf.children]
      exact .nil
    · show (OrderedMap.keys (children ++ [(segment, a.size)])).Pairwise fun s t =>
        SeenBefore paths (done ++ [s]) (done ++ [t])
      rw [hkeys]
      refine List.pairwise_append.mpr ⟨h.order hparent, List.pairwise_singleton _ _, ?_⟩
      intro s hs t ht
      obtain rfl := List.mem_singleton.mp ht
      exact ⟨paths, [], (List.append_nil paths).symm, (hold s).mp hs, hnew⟩
    · exact h.order hn

end Step

/-- **To lay a path down an ordered tree keeps it ordered.** -/
theorem Laid.ordered {paths : List KeyPath} {a a' : Arena} {p : List Segment} {id : Nat}
    (ha : a.Rooted) (h : a.Ordered paths []) (hlaid : a.Laid p a' id) : a'.Ordered paths p := by
  induction hlaid with
  | root => exact h
  | old hlaid hchild ih =>
    obtain ⟨hrooted, hreached⟩ := hlaid.rooted ha
    exact ih.old hrooted hreached hchild
  | new hlaid hf ih => exact ih.new (hlaid.rooted ha).1 hf

theorem Ordered.finish {paths : List KeyPath} {p : KeyPath} {a : Arena}
    (h : a.Ordered paths p.segments) : a.Ordered (paths ++ [p]) [] where
  seen := by
    intro id n hn s
    rw [h.seen hn, seen_append, seen_singleton]
    simp
  order hn := (h.order hn).imp fun hbefore => hbefore.append_right

/-! ### The order of leaves -/

section Leaves
variable {paths : List KeyPath} {a : Arena} (hrooted : a.Rooted) (h : a.Ordered paths [])
include hrooted h

theorem Ordered.pairwise_leavesAt (id : Nat) (n : Node) (hn : a.node? id = some n) :
    (a.outlineAt id).leaves.Pairwise (Precedes paths) := by
  revert id n
  refine hrooted.induction fun id n hn ih => ?_
  cases n with
  | leaf path =>
    rw [hrooted.outlineAt_leaf hn, Outline.leaves]
    exact List.pairwise_singleton _ _
  | interior path children =>
    have horder : (children.map (·.1)).Pairwise fun s t =>
        SeenBefore paths (path.segments ++ [s]) (path.segments ++ [t]) := h.order hn
    rw [List.pairwise_map] at horder
    rw [hrooted.leaves_interior hn, List.pairwise_flatMap]
    refine ⟨?_, horder.imp_of_mem ?_⟩
    · rintro ⟨segment, child⟩ hmem
      obtain ⟨-, m, hm, -⟩ := hrooted.child_spec hn hmem
      exact ih segment child m hmem hm
    · rintro ⟨s, x⟩ ⟨t, y⟩ hx hy hbefore p hp q hq
      obtain ⟨steps, hsteps⟩ := hrooted.segments_of_mem_leavesAt hn hx hp
      obtain ⟨others, hothers⟩ := hrooted.segments_of_mem_leavesAt hn hy hq
      refine ⟨path.segments, s, t, ⟨concat_begins hsteps, concat_begins hothers, ?_⟩, hbefore⟩
      rintro rfl
      exact Nat.lt_irrefl _ (seenBefore_iff.mp hbefore)

/-- **Of two leaves that part at a node the one whose branch was seen first comes first.** -/
theorem Ordered.pairwise_leaves : a.leaves.Pairwise (Precedes paths) := by
  obtain ⟨children, hroot⟩ := hrooted.root
  exact h.pairwise_leavesAt hrooted Arena.root _ hroot

end Leaves

end Arena

namespace Catalogue

/-! ### The order of a merge -/

/-- **The tree of documents that were added is in the order of their traversal.** -/
theorem ordered_addDocuments {compiler : Compiler} {guard : NestingGuard}
    {documents : List Document} {c : Catalogue}
    (h : (addDocuments compiler guard {} documents).outcome = .ok c) :
    c.arena.Ordered (pathsOf documents) [] := by
  have hboth := addDocuments_translations (P := fun past c =>
    Contents compiler past c ∧ c.arena.Ordered (past.map (·.path)) []) ?_ ?_
      ⟨contents_empty compiler, Arena.ordered_empty⟩ h
  · exact hboth.2
  · rintro past c locales ⟨hc, hordered⟩
    exact ⟨hc.withLocales locales, hordered⟩
  · rintro past c c' t ⟨hc, hordered⟩ htext
    obtain ⟨id, hlaid⟩ := hc.represents.laid hc.rooted htext
    refine ⟨hc.accepted (hc.represents.accepted hc.rooted htext), ?_⟩
    rw [List.map_append, List.map_singleton]
    exact (hlaid.ordered hc.rooted hordered).finish

/-- **The keys of a catalogue are in the order in which the documents show them.** -/
structure InOrder (documents : List Document) (c : Catalogue) : Prop where
  /-- Each leaf has its key once. -/
  nodup : c.arena.keys.Nodup
  mem_keys : ∀ key, key ∈ c.arena.keys ↔ ∃ p, c.arena.find? p = some (.leaf p) ∧ p.key = key
  /-- Of two leaves that first differ in a step the one comes first whose path up to this step is
  the beginning of the path of a text first. -/
  branch : ∀ p q, c.arena.find? p = some (.leaf p) → c.arena.find? q = some (.leaf q) → p ≠ q →
    (∃ i, DifferAt p.segments q.segments i) ∧ ∀ i, DifferAt p.segments q.segments i →
      (c.arena.keys.idxOf p.key < c.arena.keys.idxOf q.key ↔
        firstSeen (pathsOf documents) (p.segments.take (i + 1)) <
          firstSeen (pathsOf documents) (q.segments.take (i + 1)))
  /-- The keys of one document are in the order of its traversal. -/
  single : ∀ d, documents = [d] → d.tree.Distinct → c.arena.keys = d.paths.map KeyPath.key
  /-- The keys of the first document stay in the order of its traversal. -/
  first : ∀ d rest, documents = d :: rest → d.tree.Distinct →
    (d.paths.map KeyPath.key).Sublist c.arena.keys

instance (paths : List KeyPath) : Std.Irrefl (Precedes paths) := ⟨fun _ => not_precedes_self⟩

instance (paths : List KeyPath) : Std.Antisymm (Precedes paths) :=
  ⟨fun _ _ h h' => absurd h' h.asymm⟩

section InOrder
variable {compiler : Compiler} {documents : List Document} {c : Catalogue}
  (h : Contents compiler (translationsOf documents) c)
include h

theorem Contents.mem_leaves {p : KeyPath} : p ∈ c.arena.leaves ↔ p ∈ pathsOf documents := by
  rw [h.rooted.mem_leaves, h.find?_leaf, hasText_iff]
  unfold pathsOf
  rw [List.mem_map]

theorem Contents.exists_forks {p q : KeyPath} (hp : c.arena.find? p = some (.leaf p))
    (hq : c.arena.find? q = some (.leaf q)) (hne : p ≠ q) :
    ∃ done s t, Forks p.segments q.segments done s t := by
  have hroot : ∀ {r : KeyPath}, c.arena.find? r = some (.leaf r) → r ≠ .root := by
    rintro r hr rfl
    obtain ⟨children, hinterior⟩ := h.find?_interior.mpr (Or.inl rfl)
    rw [hr] at hinterior
    cases hinterior
  have hfree : ∀ {r r' : KeyPath}, c.arena.find? r = some (.leaf r) →
      c.arena.find? r' = some (.leaf r') → r ≠ r' → ¬ r.segments <+: r'.segments := by
    intro r r' hr hr' hne hbegins
    have hkey := h.mem_keys.mpr (h.find?_leaf.mp hr)
    have hkey' := h.mem_keys.mpr (h.find?_leaf.mp hr')
    exact h.represents.not_mem_ancestors hkey hkey'
      (KeyPath.mem_ancestors.mpr ⟨hroot hr, hbegins, hne⟩)
  exact Phrasebook.exists_forks (hfree hp hq hne) (hfree hq hp hne.symm)

variable (hordered : c.arena.Ordered (pathsOf documents) [])
include hordered

theorem Contents.idxOf_lt_iff {p q : KeyPath} (hp : c.arena.find? p = some (.leaf p))
    (hq : c.arena.find? q = some (.leaf q)) (hne : p ≠ q) {i : Nat}
    (hdiffer : DifferAt p.segments q.segments i) :
    c.arena.keys.idxOf p.key < c.arena.keys.idxOf q.key ↔
      firstSeen (pathsOf documents) (p.segments.take (i + 1)) <
        firstSeen (pathsOf documents) (q.segments.take (i + 1)) := by
  have hpmem := h.rooted.mem_leaves.mpr hp
  have hqmem := h.rooted.mem_leaves.mpr hq
  have hindex : ∀ {r : KeyPath}, r ∈ c.arena.leaves →
      c.arena.keys.idxOf r.key = c.arena.leaves.idxOf r := fun hr => idxOf_map h.nodup_keys hr
  obtain ⟨done, s, t, hforks, hps, hqt⟩ := hdiffer.exists_forks
  have hprecedes := idxOf_lt_idxOf_iff (hordered.pairwise_leaves h.rooted)
    (fun _ _ => Precedes.asymm) hpmem hqmem hne
  rw [hindex hpmem, hindex hqmem, hprecedes, hps, hqt, ← seenBefore_iff]
  constructor
  · rintro ⟨done', s', t', hforks', hbefore⟩
    obtain ⟨rfl, rfl, rfl⟩ := hforks.unique hforks'
    exact hbefore
  · intro hbefore
    exact ⟨done, s, t, hforks, hbefore⟩

theorem Contents.filter_leaves {d : Document} {rest : List Document} (hd : documents = d :: rest)
    (hdistinct : d.tree.Distinct) : c.arena.leaves.filter (· ∈ d.paths) = d.paths := by
  subst hd
  have hdocument : d.paths.Pairwise (Precedes (pathsOf (d :: rest))) := by
    rw [pathsOf_cons]
    exact (Document.pairwise_precedes hdistinct).imp fun hpq => hpq.append_right
  refine ((hordered.pairwise_leaves h.rooted).filter _).eq_of_mem_iff hdocument fun p => ?_
  rw [List.mem_filter, decide_eq_true_eq, h.mem_leaves, pathsOf_cons, List.mem_append]
  constructor
  · exact fun hp => hp.2
  · exact fun hp => ⟨.inl hp, hp⟩

/-- **A catalogue is in the order of its documents.** -/
theorem Contents.inOrder : c.InOrder documents where
  nodup := h.nodup_keys
  mem_keys key := by
    unfold Arena.keys
    rw [List.mem_map]
    simp only [h.rooted.mem_leaves]
  branch p q hp hq hne := by
    obtain ⟨done, s, t, hforks⟩ := h.exists_forks hp hq hne
    exact ⟨hforks.exists_differAt, fun i hdiffer => h.idxOf_lt_iff hordered hp hq hne hdiffer⟩
  single d hd hdistinct := by
    have hfilter := h.filter_leaves hordered hd hdistinct
    have hall : c.arena.leaves.filter (· ∈ d.paths) = c.arena.leaves := by
      refine List.filter_eq_self.mpr fun p hp => ?_
      rw [h.mem_leaves, hd, pathsOf_cons] at hp
      simpa [pathsOf, translationsOf] using hp
    rw [hall] at hfilter
    unfold Arena.keys
    rw [hfilter]
  first d rest hd hdistinct := by
    have hsublist : d.paths.Sublist c.arena.leaves := by
      rw [← h.filter_leaves hordered hd hdistinct]
      exact List.filter_sublist
    exact hsublist.map KeyPath.key

end InOrder

/-- **The keys of merged documents are in the order in which they are first seen at every branching**,
and the first document keeps its order. Every document that is decoded has distinct keys. -/
theorem inOrder_merge {compiler : Compiler} {documents : List Document} {c : Catalogue}
    (h : (merge compiler documents).outcome = .ok c) :
    c.InOrder documents ∧ ∀ (text source : Text) (tree : Datum Foreign),
      Document.decode text source = .ok tree → tree.Distinct := by
  have hadded := merge_eq_ok.mp h
  exact ⟨(contents_addDocuments hadded).inOrder (ordered_addDocuments hadded),
    fun text source tree hdecode => Document.distinct_decode hdecode⟩

set_option maxRecDepth 2000 in
/-- The second document puts a child into a node of the first one, and has a list. -/
theorem inOrder_merge_interleaved :
    let documents : List Document :=
      [{ locale := "en", tree := .map [(.text "a", .map [(.text "x", .text "x")]),
          (.text "b", .text "b")] },
        { locale := "de", tree := .map [(.text "c", .list [.null, .text "c"]),
          (.text "a", .map [(.text "y", .text "y"), (.text "x", .text "X")])] }]
    ∃ c, (merge Template.compiler documents).outcome = .ok c ∧ c.InOrder documents ∧
      ∀ (text source : Text) (tree : Datum Foreign),
        Document.decode text source = .ok tree → tree.Distinct := by
  intro documents
  have hok : (merge Template.compiler documents).outcome.isOk = true := by cbv
  obtain ⟨c, hc⟩ := Except.exists_eq_ok hok
  exact ⟨c, hc, inOrder_merge hc⟩

end Catalogue

end Phrasebook
