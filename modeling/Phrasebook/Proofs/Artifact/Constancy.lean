import Mathlib.Data.List.Permutation
import Phrasebook.Compile.Generation
import Phrasebook.Proofs.Schema.Contents
import Phrasebook.Proofs.Schema.Rewording

/-! # What the declaration module depends on

The declaration module shows no translation. It is told by the form of the tree, the signatures of
the keys and the locales (`SameInterface.typesCode_eq`). So merges of different documents with
different compilers give the same declaration module if these agree, and rewording the documents
never changes it (`Modules.typesModule_eq_of_form`). -/

namespace Phrasebook

/-! ### The form of a tree -/

namespace Outline

mutual

/-- **The form of an outline**: its names in their order, and which nodes are leaves. The paths are
forgotten. -/
def form : Outline → Outline
  | .leaf _ => .leaf .root
  | .interior _ children => .interior .root (formOfChildren children)

/-- The forms of some children, under their names. -/
def formOfChildren : List (Segment × Outline) → List (Segment × Outline)
  | [] => []
  | (segment, child) :: rest => (segment, form child) :: formOfChildren rest

end

mutual

/-- The outline with each node at the path to which the names lead from the given one. -/
def placed (path : KeyPath) : Outline → Outline
  | .leaf _ => .leaf path
  | .interior _ children => .interior path (placedChildren path children)

/-- Some children of the node at a path, each with its nodes at their paths. -/
def placedChildren (path : KeyPath) : List (Segment × Outline) → List (Segment × Outline)
  | [] => []
  | (segment, child) :: rest =>
    (segment, placed (path.child segment) child) :: placedChildren path rest

end

mutual

theorem placed_form : ∀ (path : KeyPath) (o : Outline), o.form.placed path = o.placed path
  | path, .leaf _ => rfl
  | path, .interior _ children => by
    rw [form, placed, placed, placedChildren_form path children]

theorem placedChildren_form : ∀ (path : KeyPath) (children : List (Segment × Outline)),
    placedChildren path (formOfChildren children) = placedChildren path children
  | path, [] => rfl
  | path, (segment, child) :: rest => by
    rw [formOfChildren, placedChildren, placedChildren, placed_form _ child,
      placedChildren_form path rest]

end

theorem placedChildren_eq_map (path : KeyPath) (children : List (Segment × Outline)) :
    placedChildren path children =
      children.map fun child => (child.1, child.2.placed (path.child child.1)) := by
  induction children with
  | nil => rfl
  | cons child rest ih => rw [placedChildren, ih, List.map_cons]

end Outline

namespace Arena

variable {a b : Arena}

theorem Rooted.placed_outlineAt (h : a.Rooted) (id : Nat) (n : Node) (hn : a.node? id = some n) :
    (a.outlineAt id).placed n.path = a.outlineAt id := by
  revert id n
  refine h.induction fun id n hn ih => ?_
  cases n with
  | leaf path =>
    rw [h.outlineAt_leaf hn]
    rfl
  | interior path children =>
    rw [h.outlineAt_interior hn, Outline.placed, Outline.placedChildren_eq_map, List.map_map]
    refine congrArg (Outline.interior path) (List.map_congr_left fun child hchild => ?_)
    obtain ⟨-, m, hm, hpath⟩ := h.child_spec hn hchild
    have hchildren := ih child.1 child.2 m hchild hm
    rw [hpath] at hchildren
    exact congrArg (child.1, ·) hchildren

/-- **A rooted tree is told by its form.** -/
theorem Rooted.outline_eq (h : a.Rooted) (hb : b.Rooted)
    (hform : a.outline.form = b.outline.form) : a.outline = b.outline := by
  have hplaced : ∀ {t : Arena}, t.Rooted → t.outline.form.placed .root = t.outline := by
    intro t ht
    obtain ⟨children, hroot⟩ := ht.toSound.root
    rw [Outline.placed_form]
    exact ht.placed_outlineAt Arena.root _ hroot
  rw [← hplaced h, hform, hplaced hb]

end Arena

/-! ### What the module reads of a schema -/

/-- **Two catalogues have the same interface**: the same tree, at each path keys with the same
signature or none, and the same locales. -/
structure Catalogue.SameInterface (c c' : Catalogue) : Prop where
  outline : c.arena.outline = c'.arena.outline
  entries : ∀ path, (c.entry? path = none ∧ c'.entry? path = none) ∨
    ∃ e e', c.entry? path = some e ∧ c'.entry? path = some e' ∧ e.key = e'.key ∧
      e.signature = e'.signature
  locales : c.locales = c'.locales

namespace Catalogue

section Contents
variable {compiler compiler' : Compiler} {past past' : List Translation} {c c' : Catalogue}

theorem Contents.exists_entry?_of_outline (h : c.Contents compiler past)
    (h' : c'.Contents compiler' past') (houtline : c.arena.outline = c'.arena.outline)
    {path : KeyPath} {e : Entry} (he : c.entry? path = some e) :
    ∃ e', c'.entry? path = some e' ∧ e.key = e'.key := by
  have hmem : (path.key, e) ∈ c.entries := OrderedMap.mem_of_get? he
  have hkey : path.key = e.path.key := h.represents.keyed _ hmem
  have hleaf : e.path ∈ c.arena.leaves := by
    rw [h.rooted.mem_leaves, h.rooted.toSound.find?_leaf, h.represents.kind?, Ledger.kind?_eq_leaf]
    exact mem_ledger_keys.mpr ⟨_, hmem, rfl⟩
  have hleaf' : e.path ∈ c'.arena.leaves := by
    unfold Arena.leaves at hleaf ⊢
    rwa [← houtline]
  rw [h'.rooted.mem_leaves, h'.rooted.toSound.find?_leaf, h'.represents.kind?,
    Ledger.kind?_eq_leaf] at hleaf'
  obtain ⟨e', he', hpath, -⟩ := h'.represents.exists_entry hleaf'
  rw [← hkey] at he'
  exact ⟨e', he', congrArg KeyPath.key hpath.symm⟩

/-- **The form of the tree, the signatures of common keys and the locales tell the interface** of a
catalogue. -/
theorem Contents.sameInterface (h : c.Contents compiler past) (h' : c'.Contents compiler' past')
    (hform : c.arena.outline.form = c'.arena.outline.form)
    (hsignatures : ∀ key e e', c.entries.get? key = some e → c'.entries.get? key = some e' →
      e.signature = e'.signature)
    (hlocales : c.locales = c'.locales) : c.SameInterface c' := by
  have houtline := h.rooted.outline_eq h'.rooted hform
  refine ⟨houtline, fun path => ?_, hlocales⟩
  cases he : c.entry? path with
  | none =>
    cases he' : c'.entry? path with
    | none => exact .inl ⟨rfl, rfl⟩
    | some e' =>
      obtain ⟨e, hfound, -⟩ := h'.exists_entry?_of_outline h houtline.symm he'
      rw [he] at hfound
      cases hfound
  | some e =>
    obtain ⟨e', he', hkey⟩ := h.exists_entry?_of_outline h' houtline he
    exact .inr ⟨e, e', rfl, he', hkey, hsignatures path.key e e' he he'⟩

end Contents

section SameInterface
variable {c c' : Catalogue} (h : c.SameInterface c')
include h

theorem SameInterface.isShown_eq (showing : Showing) : c.isShown showing = c'.isShown showing := by
  funext path
  unfold isShown hasFormatters
  rcases h.entries path with ⟨he, he'⟩ | ⟨e, e', he, he', -, hsignature⟩
  · rw [he, he']
  · rw [he, he', Option.map_some, Option.map_some, hsignature]

theorem SameInterface.view_eq (showing : Showing) : c.view showing = c'.view showing := by
  unfold view
  rw [h.outline, h.isShown_eq]

theorem SameInterface.walkChildren_eq (showing : Showing) :
    ∀ children : List (Segment × Outline), Declarations.walkChildren c showing children =
      Declarations.walkChildren c' showing children
  | [] => by rw [Declarations.walkChildren, Declarations.walkChildren]
  | (segment, .leaf path) :: rest => by
    have hrest := SameInterface.walkChildren_eq showing rest
    rw [Declarations.walkChildren, Declarations.walkChildren, hrest]
    rcases h.entries path with ⟨he, he'⟩ | ⟨e, e', he, he', hkey, hsignature⟩
    · rw [he, he']
    · have hentry : Declarations.tableEntry showing e = Declarations.tableEntry showing e' := by
        unfold Declarations.tableEntry
        rw [hkey, hsignature]
      simp only [he, he', hentry, hsignature]
  | (segment, .interior _ children) :: rest => by
    rw [Declarations.walkChildren, Declarations.walkChildren,
      SameInterface.walkChildren_eq showing children, SameInterface.walkChildren_eq showing rest]

/-- **Catalogues with the same interface have the same declaration module.** -/
theorem SameInterface.typesCode_eq (defaultLocale : Text) (moduleAlias : Given Text) :
    Modules.typesCode c defaultLocale moduleAlias =
      Modules.typesCode c' defaultLocale moduleAlias := by
  have hwalk : ∀ showing, Declarations.walk c showing = Declarations.walk c' showing := by
    intro showing
    unfold Declarations.walk
    rw [h.view_eq, h.walkChildren_eq]
  unfold Modules.typesCode Modules.typesBody
  rw [hwalk, hwalk, h.locales]

end SameInterface

theorem Parallel.sameInterface {c c' : Catalogue} (h : c.Parallel c') : c.SameInterface c' where
  outline := congrArg Arena.outline h.arena
  entries path := by
    refine (h.get? path.key).imp_right ?_
    rintro ⟨e, e', he, he', hpath, hsignature⟩
    exact ⟨e, e', he, he', congrArg KeyPath.key hpath, hsignature⟩
  locales := h.locales

end Catalogue

/-! ### The declaration module of documents -/

theorem Document.map_locale_of_reworded {R : Text → Text → Prop}
    {documents documents' : List Document}
    (h : List.Forall₂ (Document.Reworded R) documents documents') :
    documents.map Document.locale = documents'.map Document.locale := by
  induction h with
  | nil => rfl
  | cons hd _ ih => rw [List.map_cons, List.map_cons, hd.locale, ih]

namespace Compile

theorem checkDocuments_congr {documents documents' : List Document}
    (h : documents.map Document.locale = documents'.map Document.locale)
    (defaultLocale source : Text) : checkDocuments documents defaultLocale source =
      checkDocuments documents' defaultLocale source := by
  have hempty : documents.isEmpty = documents'.isEmpty := by
    rw [← List.isEmpty_map (f := Document.locale), h, List.isEmpty_map]
  unfold checkDocuments
  simp only [h, hempty]

theorem agree_generate (selfNames selfNames' : Locale.SelfNames) {compiler compiler' : Compiler}
    {documents documents' : List Document}
    (hmerge : Except.Agree Catalogue.Parallel (Catalogue.merge compiler documents).outcome
      (Catalogue.merge compiler' documents').outcome)
    (hlocales : documents.map Document.locale = documents'.map Document.locale)
    (defaultLocale : Text) (moduleAlias : Given Text)
    (names? names?' : Option (OrderedMap Text Text)) (source : Text) :
    Except.Agree (fun m m' => m.typesModule = m'.typesModule)
      (generate selfNames compiler documents defaultLocale moduleAlias names? source).outcome
      (generate selfNames' compiler' documents' defaultLocale moduleAlias names?'
        source).outcome := by
  unfold generate
  simp only [Report.outcome_bind, checkDocuments_congr hlocales]
  cases checkDocuments documents' defaultLocale source with
  | error problem => exact .error _
  | ok checked =>
    refine hmerge.bind fun c c' hparallel => ?_
    have hcode := hparallel.sameInterface.typesCode_eq defaultLocale moduleAlias
    -- Names are always at hand, and the module has none of them.
    cases names? <;> cases names?' <;>
      exact .ok (congrArg Code.render hcode)

end Compile

/-- **The declaration module does not depend on the texts.** Whatever the compilers, the documents
and the display names are, merged catalogues have the same one if the forms of their trees, the
signatures of their keys and their locales are the same. In particular documents reworded with the
same names have the same declaration module, or they are refused alike. -/
theorem Modules.typesModule_eq_of_form :
    (∀ {compiler compiler' : Compiler} {guard guard' : NestingGuard}
        {documents documents' : List Document} {c c' : Catalogue},
      (Catalogue.addDocuments compiler guard {} documents).outcome = .ok c →
      (Catalogue.addDocuments compiler' guard' {} documents').outcome = .ok c' →
      c.arena.outline.form = c'.arena.outline.form →
      (∀ key e e', c.entries.get? key = some e → c'.entries.get? key = some e' →
        e.signature = e'.signature) →
      c.locales = c'.locales →
      ∀ defaultLocale moduleAlias names names',
        (emit c defaultLocale moduleAlias names).outcome.map Modules.typesModule =
          (emit c' defaultLocale moduleAlias names').outcome.map Modules.typesModule) ∧
    ∀ {documents documents' : List Document},
      List.Forall₂ (Document.Reworded Template.SameNames) documents documents' →
      ∀ (selfNames selfNames' : Locale.SelfNames) defaultLocale moduleAlias names? names?' source,
        (Compile.generate selfNames Template.compiler documents defaultLocale moduleAlias names?
            source).outcome.map Modules.typesModule =
          (Compile.generate selfNames' Template.compiler documents' defaultLocale moduleAlias names?'
            source).outcome.map Modules.typesModule := by
  constructor
  · intro compiler compiler' guard guard' documents documents' c c' hc hc' hform hsignatures hlocales
      defaultLocale moduleAlias names names'
    have hsame := (Catalogue.contents_addDocuments hc).sameInterface
      (Catalogue.contents_addDocuments hc') hform hsignatures hlocales
    unfold emit
    rw [hsame.typesCode_eq]
    rfl
  · intro documents documents' hreworded selfNames selfNames' defaultLocale moduleAlias names?
      names?' source
    have hmerge := Catalogue.agree_merge_of_reworded
      (fun t u => Template.SameNames.agree (t := t) (u := u)) hreworded
    exact (Compile.agree_generate selfNames selfNames' hmerge
      (Document.map_locale_of_reworded hreworded) defaultLocale moduleAlias names? names?'
      source).map_eq_map

set_option maxRecDepth 4000 in
/-- Two locales that translate other keys in other words, under other display names; and a document
that is reworded. -/
theorem Modules.typesModule_eq_of_form_reworded :
    let documents : List Document :=
      [{ locale := "en", tree := .map [(.text "a", .map [(.text "x", .text "\x7bf:\x7bn\x7d\x7d"),
          (.text "y", .text "Hi")])] },
        { locale := "de", tree := .map [(.text "a", .map [(.text "y", .text "Ho")])] }]
    let documents' : List Document :=
      [{ locale := "en",
          tree := .map [(.text "a", .map [(.text "x", .text "\x7bn\x7d \x7bf:!\x7d")])] },
        { locale := "de", tree := .map [(.text "a", .map [(.text "y", .text "")])] }]
    let reworded : List Document :=
      [{ locale := "en", tree := .map [(.text "a", .map [(.text "x", .text "\x7bn\x7d \x7bf:!\x7d"),
          (.text "y", .text "Hi")])] },
        { locale := "de", tree := .map [(.text "a", .map [(.text "y", .text "Ho")])] }]
    let selfNames : Locale.SelfNames := .ofTable [("en", "English"), ("de", "Deutsch")]
    (∃ c c', (Catalogue.addDocuments Template.compiler (.ofLimit 2) {} documents).outcome = .ok c ∧
      (Catalogue.addDocuments Template.compiler (.ofLimit 3) {} documents').outcome = .ok c' ∧
      c.arena.outline.form = c'.arena.outline.form ∧
      (∀ key e e', c.entries.get? key = some e → c'.entries.get? key = some e' →
        e.signature = e'.signature) ∧
      c.locales = c'.locales ∧
      (emit c "en" usualAlias []).outcome.map Modules.typesModule =
        (emit c' "en" usualAlias [("de", "Deutsch")]).outcome.map Modules.typesModule) ∧
    List.Forall₂ (Document.Reworded Template.SameNames) documents reworded ∧
    (Compile.generate selfNames Template.compiler documents "en" usualAlias).outcome.map
        Modules.typesModule =
      (Compile.generate selfNames Template.compiler reworded "en" usualAlias).outcome.map
        Modules.typesModule := by
  intro documents documents' reworded selfNames
  have hok : (Catalogue.addDocuments Template.compiler (.ofLimit 2) {} documents).outcome.isOk =
      true := by cbv
  have hok' : (Catalogue.addDocuments Template.compiler (.ofLimit 3) {} documents').outcome.isOk =
      true := by cbv
  have hsame : ((Catalogue.addDocuments Template.compiler (.ofLimit 2) {} documents).outcome.map
      fun c => (c.arena.outline.form, c.frames, c.locales)) =
        (Catalogue.addDocuments Template.compiler (.ofLimit 3) {} documents').outcome.map
          fun c => (c.arena.outline.form, c.frames, c.locales) := by cbv
  obtain ⟨c, hc⟩ := Except.exists_eq_ok hok
  obtain ⟨c', hc'⟩ := Except.exists_eq_ok hok'
  rw [hc, hc'] at hsame
  obtain ⟨hform, hsame⟩ := Prod.mk.inj (Except.ok.inj hsame)
  obtain ⟨hframes, hlocales⟩ := Prod.mk.inj hsame
  have hsignatures : ∀ key e e', c.entries.get? key = some e → c'.entries.get? key = some e' →
      e.signature = e'.signature := by
    intro key e e' he he'
    have hframe := congrArg (OrderedMap.get? key) hframes
    rw [Catalogue.get?_frames, Catalogue.get?_frames, he, he'] at hframe
    exact (Prod.mk.inj (Option.some_inj.mp hframe)).2
  have hnames : Template.SameNames "\x7bf:\x7bn\x7d\x7d" "\x7bn\x7d \x7bf:!\x7d" :=
    ⟨[.formatter "f" [.value "n"]], [.value "n", .text " ", .formatter "f" [.text "!"]],
      by cbv, by cbv, fun _ => Iff.of_eq (by cbv), fun _ => Iff.of_eq (by cbv)⟩
  have hreworded : List.Forall₂ (Document.Reworded Template.SameNames) documents reworded := by
    refine .cons ⟨rfl, .map rfl (.cons (.map rfl ?_) .nil)⟩ (.cons ⟨rfl, .same _⟩ .nil)
    exact .cons (.text hnames) (.cons (.same _) .nil)
  exact ⟨⟨c, c', hc, hc', hform, hsignatures, hlocales,
    typesModule_eq_of_form.1 hc hc' hform hsignatures hlocales _ _ _ _⟩, hreworded,
    typesModule_eq_of_form.2 hreworded _ _ _ _ _ _ _⟩

end Phrasebook
