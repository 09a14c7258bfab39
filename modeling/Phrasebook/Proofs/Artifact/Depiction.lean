import Phrasebook.Proofs.Artifact.Portrait
import Phrasebook.Proofs.Schema.Holdings
import Phrasebook.Proofs.Script.Unbroken
import Phrasebook.Proofs.Template.Parameters

/-! # What the object of translations shows

What a portrait says under some names is what the schema says at their path (`Portrait.Depicts`). The
object of translations of a merged schema is read as a portrait that depicts it, so schemas with the
same object say the same at every path (`Portrait.depicts_read_merge`). -/

namespace Phrasebook

/-- **What is said about a place of a schema.** -/
inductive Description where
  /-- A node has nested objects and leaves of some names, in their order. -/
  | node (nested leaves : List Text)
  /-- A leaf has a key, and a script for each locale, in their order. -/
  | leaf (key : Text) (scripts : List (Text × Text))

/-- What a portrait says about the place that some names lead to. -/
def Portrait.describe? : List Text → Portrait → Option Description
  | [], .node nested leaves => some (.node (OrderedMap.keys nested) (OrderedMap.keys leaves))
  | name :: rest, .node nested leaves =>
    match OrderedMap.get? name nested with
    | some portrait => describe? rest portrait
    | none =>
      if rest = [] then (OrderedMap.get? name leaves).map fun leaf => .leaf leaf.1 leaf.2 else none

/-- The outlines below the children of a node, under their names. -/
def Arena.outlines (a : Arena) (children : OrderedMap Segment Nat) : List (Segment × Outline) :=
  children.map fun child => (child.1, a.outlineAt child.2)

namespace Catalogue

/-- The names of those children of a node that are of a kind, in the order of the children. -/
def childNames (c : Catalogue) (kind : Node.Kind) (children : OrderedMap Segment Nat) : List Text :=
  (children.filter fun child => (c.arena.node? child.2).map Node.kind = some kind).map
    fun child => child.1.toText

/-- What a schema says about a node. -/
def describeNode? (c : Catalogue) : Node → Option Description
  | .leaf path => (c.entry? path).map fun e => .leaf path.key e.expressions
  | .interior _ children =>
    some (.node (c.childNames .interior children) (c.childNames .leaf children))

/-- What a schema says about the place at a path. -/
def describe? (c : Catalogue) (path : KeyPath) : Option Description :=
  (c.arena.find? path).bind c.describeNode?

end Catalogue

/-- **A portrait depicts a schema.** It says about each node, under names that spell its path, what
the schema says, and under other names it says nothing. -/
structure Portrait.Depicts (portrait : Portrait) (c : Catalogue) : Prop where
  node : ∀ {id n}, c.arena.node? id = some n → ∃ names d, n.path = ⟨names.map .name⟩ ∧
    c.describeNode? n = some d ∧ portrait.describe? names = some d
  describe? : ∀ names, portrait.describe? names = c.describe? ⟨names.map .name⟩

/-! ### Nodes of a merged schema -/

namespace Catalogue.Contents

variable {compiler : Compiler} {documents : List Document} {c : Catalogue}
  (h : Contents compiler (translationsOf documents) c)
include h

theorem exists_names {id : Nat} {n : Node} (hn : c.arena.node? id = some n) :
    ∃ names : List Text, n.path = ⟨names.map .name⟩ := by
  have htext : ∀ p, HasText documents p → ∃ names : List Text, p.segments = names.map .name := by
    rintro p ⟨d, -, t, hat⟩
    exact hat.exists_names
  have hfound := h.rooted.find?_path hn
  cases n with
  | leaf path =>
    obtain ⟨names, hnames⟩ := htext path (h.find?_leaf.mp hfound)
    exact ⟨names, KeyPath.ext hnames⟩
  | interior path children =>
    rcases h.find?_interior.mp ⟨children, hfound⟩ with rfl | ⟨q, hq, hbegins, -⟩
    · exact ⟨[], rfl⟩
    · obtain ⟨names, hnames⟩ := htext q hq
      rw [hnames, List.prefix_iff_eq_take, ← List.map_take] at hbegins
      exact ⟨_, KeyPath.ext hbegins⟩

theorem name_of_mem_children {id : Nat} {n : Node} (hn : c.arena.node? id = some n)
    {child : Segment × Nat} (hchild : child ∈ n.children) : child.1 = .name child.1.toText := by
  obtain ⟨segment, number⟩ := child
  obtain ⟨-, m, hm, hpath⟩ := h.rooted.child_spec hn hchild
  obtain ⟨names, hnames⟩ := h.exists_names hm
  have hsegments : n.path.segments ++ [segment] = names.map .name := by
    rw [← KeyPath.segments_child, ← hpath, hnames]
  have hsegment : segment ∈ names.map Segment.name := by
    rw [← hsegments]
    exact List.mem_concat_self
  obtain ⟨name, -, rfl⟩ := List.mem_map.mp hsegment
  rfl

theorem exists_entry? {id : Nat} {path : KeyPath} (hn : c.arena.node? id = some (.leaf path)) :
    ∃ e, c.entry? path = some e ∧ e.key = path.key := by
  obtain ⟨e, he, hpath⟩ := h.exists_entry (h.find?_leaf.mp (h.rooted.find?_path hn))
  exact ⟨e, he, congrArg KeyPath.key hpath⟩

theorem exists_describeNode? {id : Nat} {n : Node} (hn : c.arena.node? id = some n) :
    ∃ d, c.describeNode? n = some d := by
  cases n with
  | leaf path =>
    obtain ⟨e, he, -⟩ := h.exists_entry? hn
    exact ⟨_, by rw [describeNode?, he, Option.map_some]⟩
  | interior path children => exact ⟨_, rfl⟩

end Catalogue.Contents

/-! ### What the portrait of a schema says -/

namespace Portrait

/-- The portrait of an interior node with some children. -/
def ofNode (c : Catalogue) (children : List (Segment × Outline)) : Portrait :=
  .node (ofChildren c children).1 (ofChildren c children).2

/-- The portrait of a child, if it is an interior node. -/
def nestedOf? (c : Catalogue) : Outline → Option Portrait
  | .leaf _ => none
  | .interior _ below => some (ofNode c below)

/-- The key and the scripts of a child, if it is a leaf. -/
def leafOf? (c : Catalogue) : Outline → Option (Text × List (Text × Text))
  | .leaf path => (c.entry? path).map fun e => (e.key, e.expressions)
  | .interior _ _ => none

/-- **What stands under a name** in a portrait of children with different names is the child of this
name: among the nested objects if it is an interior node, among the leaves if it is a leaf. -/
theorem get?_ofChildren (c : Catalogue) (name : Text) : ∀ children : List (Segment × Outline),
    (OrderedMap.keys children).Nodup → (∀ child ∈ children, child.1 = .name child.1.toText) →
      OrderedMap.get? name (ofChildren c children).1 =
          (OrderedMap.get? (.name name) children).bind (nestedOf? c) ∧
        OrderedMap.get? name (ofChildren c children).2 =
          (OrderedMap.get? (.name name) children).bind (leafOf? c)
  | [], _, _ => by
    rw [ofChildren]
    exact ⟨rfl, rfl⟩
  | (segment, child) :: rest, hnodup, hnames => by
    obtain ⟨hfirst, hrest⟩ := List.nodup_cons.mp hnodup
    obtain ⟨hsegment, hothers⟩ := List.forall_mem_cons.mp hnames
    obtain ⟨hnested, hleaves⟩ := get?_ofChildren c name rest hrest hothers
    rw [OrderedMap.get?]
    by_cases hname : segment = .name name
    · have htext : segment.toText = name := by rw [hname, Segment.toText]
      have hnone : OrderedMap.get? (.name name) rest = none :=
        OrderedMap.get?_eq_none.mpr (hname ▸ hfirst)
      rw [hnone] at hnested hleaves
      rw [if_pos hname]
      cases child with
      | leaf path =>
        rw [ofChildren, Option.bind_some, Option.bind_some, nestedOf?, leafOf?]
        cases he : c.entry? path with
        | none => exact ⟨hnested, hleaves⟩
        | some e => exact ⟨hnested, if_pos htext⟩
      | interior path below =>
        rw [ofChildren]
        exact ⟨if_pos htext, hleaves⟩
    · have htext : segment.toText ≠ name := by
        rintro rfl
        exact hname hsegment
      rw [if_neg hname]
      cases child with
      | leaf path =>
        rw [ofChildren]
        cases he : c.entry? path with
        | none => exact ⟨hnested, hleaves⟩
        | some e => exact ⟨hnested, (if_neg htext).trans hleaves⟩
      | interior path below =>
        rw [ofChildren]
        exact ⟨(if_neg htext).trans hnested, hleaves⟩

section Contents
variable {compiler : Compiler} {documents : List Document} {c : Catalogue}
  (h : c.Contents compiler (translationsOf documents))
include h

/-- **The names in the portrait of a node** are those of its children. -/
theorem keys_ofChildren : ∀ children : OrderedMap Segment Nat,
    (∀ child ∈ children, ∃ m, c.arena.node? child.2 = some m) →
      OrderedMap.keys (ofChildren c (c.arena.outlines children)).1 =
          c.childNames .interior children ∧
        OrderedMap.keys (ofChildren c (c.arena.outlines children)).2 = c.childNames .leaf children
  | [], _ => by
    rw [Arena.outlines, List.map_nil, ofChildren]
    exact ⟨rfl, rfl⟩
  | (segment, id) :: rest, hnodes => by
    obtain ⟨⟨m, hm⟩, hothers⟩ := List.forall_mem_cons.mp hnodes
    obtain ⟨hnested, hleaves⟩ := keys_ofChildren rest hothers
    have hm' : c.arena.node? id = some m := hm
    unfold Catalogue.childNames Arena.outlines at hnested hleaves ⊢
    rw [List.map_cons]
    cases m with
    | leaf path =>
      obtain ⟨e, he, -⟩ := h.exists_entry? hm'
      rw [h.rooted.outlineAt_leaf hm', ofChildren, he]
      simp only [List.filter_cons, hm', Option.map_some, Node.kind]
      exact ⟨hnested, congrArg (segment.toText :: ·) hleaves⟩
    | interior path below =>
      rw [h.rooted.outlineAt_interior hm', ofChildren]
      simp only [List.filter_cons, hm', Option.map_some, Node.kind]
      exact ⟨congrArg (segment.toText :: ·) hnested, hleaves⟩

/-- **The portrait of a node says what the schema says** about all that lies below it. -/
theorem describe?_ofNode : ∀ (names : List Text) {id : Nat} {path : KeyPath}
    {children : OrderedMap Segment Nat}, c.arena.node? id = some (.interior path children) →
      (ofNode c (c.arena.outlines children)).describe? names =
        ((c.arena.follow? id (names.map .name)).bind c.arena.node?).bind c.describeNode?
  | [], id, path, children, hn => by
    have hnodes : ∀ child ∈ children, ∃ m, c.arena.node? child.2 = some m := by
      intro child hchild
      obtain ⟨-, m, hm, -⟩ := h.rooted.child_spec hn hchild
      exact ⟨m, hm⟩
    obtain ⟨hnested, hleaves⟩ := keys_ofChildren h children hnodes
    rw [ofNode, describe?, hnested, hleaves, List.map_nil, Arena.follow?, Option.bind_some, hn]
    rfl
  | name :: rest, id, path, children, hn => by
    have hget : OrderedMap.get? (.name name) (c.arena.outlines children) =
        (children.get? (.name name)).map c.arena.outlineAt := OrderedMap.get?_map_value _ _ _
    have hkeys : OrderedMap.keys (c.arena.outlines children) = children.keys := List.map_map
    have hnames : ∀ child ∈ c.arena.outlines children, child.1 = .name child.1.toText := by
      unfold Arena.outlines
      rw [List.forall_mem_map]
      exact fun child hchild => h.name_of_mem_children hn hchild
    obtain ⟨hnested, hleaves⟩ :=
      get?_ofChildren c name _ (hkeys ▸ h.rooted.nodup hn) hnames
    rw [ofNode, describe?, hnested, hleaves, hget, List.map_cons, Arena.follow?, Arena.child?, hn,
      Option.bind_some, Node.children]
    -- Names go on below an interior node only; a leaf is where they end.
    cases hchild : children.get? (.name name) with
    | none => simp
    | some number =>
      obtain ⟨-, m, hm, -⟩ := h.rooted.child_spec hn (OrderedMap.mem_of_get? hchild)
      rw [Option.map_some, Option.bind_some, Option.bind_some, Option.bind_some]
      cases m with
      | interior path below =>
        rw [h.rooted.outlineAt_interior hm]
        exact describe?_ofNode rest hm
      | leaf path =>
        obtain ⟨e, he, hkey⟩ := h.exists_entry? hm
        rw [h.rooted.outlineAt_leaf hm, nestedOf?, leafOf?, he]
        cases rest with
        | nil =>
          rw [List.map_nil, Arena.follow?, Option.bind_some, hm, Option.bind_some,
            Catalogue.describeNode?, he, Option.map_some, Option.map_some, ← hkey]
          rfl
        | cons other rest =>
          rw [List.map_cons, Arena.follow?, Arena.child?, hm]
          rfl

theorem exists_names_of_describe? {p : KeyPath} {d : Description} (hd : c.describe? p = some d) :
    ∃ names : List Text, p = ⟨names.map .name⟩ := by
  obtain ⟨n, hfound, -⟩ := Option.bind_eq_some_iff.mp hd
  obtain ⟨id, -, hn⟩ := Option.bind_eq_some_iff.mp hfound
  obtain ⟨names, hnames⟩ := h.exists_names hn
  exact ⟨names, (h.rooted.toSound.path_of_find? hfound).symm.trans hnames⟩

end Contents

/-! ### The object of a merged schema -/

variable {documents documents' : List Document} {c c' : Catalogue}

theorem legible (h : c.Contents Template.compiler (translationsOf documents)) : Legible c := by
  intro entry hentry x hx
  obtain ⟨t, compiled, hcompiled, -, hscript⟩ := (h.records entry hentry).exists_expression hx
  have hcompile := Template.compiler_eq_ok.mp hcompiled
  obtain ⟨program, hread, -⟩ := (Template.uses_compile hcompile).1
  rw [← hscript]
  exact ⟨Template.unbroken_compile hcompile, program, hread⟩

theorem exists_depicts (h : c.Contents Template.compiler (translationsOf documents)) :
    ∃ portrait, read (Runtime.walk c .translations).object.render = some portrait ∧
      portrait.Depicts c := by
  obtain ⟨children, hroot⟩ := h.rooted.toSound.root
  have hview : (c.view .translations).children = c.arena.outlines children := by
    show (c.arena.outlineAt Arena.root).children = _
    rw [h.rooted.outlineAt_interior hroot]
    rfl
  have hread := read_object (legible h)
  rw [hview] at hread
  have hdescribe := fun names => describe?_ofNode h names hroot
  refine ⟨_, hread, ?_, hdescribe⟩
  intro id n hn
  obtain ⟨names, hnames⟩ := h.exists_names hn
  obtain ⟨d, hd⟩ := h.exists_describeNode? hn
  refine ⟨names, d, hnames, hd, (hdescribe names).trans ?_⟩
  have hfound := h.rooted.find?_path hn
  rw [hnames] at hfound
  show (c.arena.find? ⟨names.map .name⟩).bind c.describeNode? = some d
  rw [hfound, Option.bind_some, hd]

theorem Depicts.describe?_eq (h : c.Contents Template.compiler (translationsOf documents))
    (h' : c'.Contents Template.compiler (translationsOf documents')) {portrait : Portrait}
    (hdepicts : portrait.Depicts c) (hdepicts' : portrait.Depicts c') (p : KeyPath) :
    c.describe? p = c'.describe? p := by
  have hnames : ∀ names : List Text,
      c.describe? ⟨names.map .name⟩ = c'.describe? ⟨names.map .name⟩ := by
    intro names
    rw [← hdepicts.describe?, hdepicts'.describe?]
  refine Option.ext fun d => ?_
  constructor
  · intro hd
    obtain ⟨names, rfl⟩ := exists_names_of_describe? h hd
    rwa [← hnames]
  · intro hd
    obtain ⟨names, rfl⟩ := exists_names_of_describe? h' hd
    rwa [hnames]

/-- **The object of translations can be read back without loss.** What is read from that of a merged
schema is a portrait that depicts it; so two merged schemas with the same object say the same at
every path. -/
theorem depicts_read_merge (h : (Catalogue.merge Template.compiler documents).outcome = .ok c) :
    (∃ portrait, read (Runtime.walk c .translations).object.render = some portrait ∧
        portrait.Depicts c) ∧
      ∀ {documents' : List Document} {c' : Catalogue},
        (Catalogue.merge Template.compiler documents').outcome = .ok c' →
          (Runtime.walk c .translations).object.render =
              (Runtime.walk c' .translations).object.render →
            ∀ p, c.describe? p = c'.describe? p := by
  have hc := Catalogue.contents_addDocuments (Catalogue.merge_eq_ok.mp h)
  refine ⟨exists_depicts hc, fun h' hsame => ?_⟩
  have hc' := Catalogue.contents_addDocuments (Catalogue.merge_eq_ok.mp h')
  obtain ⟨portrait, hread, hdepicts⟩ := exists_depicts hc
  obtain ⟨portrait', hread', hdepicts'⟩ := exists_depicts hc'
  rw [hsame, hread'] at hread
  cases hread
  exact hdepicts.describe?_eq hc hc' hdepicts'

set_option maxRecDepth 4000 in
/-- Nested keys, a formatter and a text of a line feed; in the second list of documents one text is
overwritten by the last document. -/
theorem depicts_read_merge_overwritten :
    let documents (x : Text) : List Document :=
      [{ locale := "en", tree := .map [(.text "a", .map [(.text "x", .text x),
          (.text "y", .text [CodePoint.lf])]), (.text "b", .text "B")] },
        { locale := "de", tree := .map [(.text "a", .map [(.text "x", .text "\x7bf:\x7d!")])] }]
    let last : Document :=
      { locale := "en", tree := .map [(.text "a", .map [(.text "x", .text "\x7bf: n\x7d")])] }
    ∃ c c', (Catalogue.merge Template.compiler (documents "\x7bf: n\x7d")).outcome = .ok c ∧
      (Catalogue.merge Template.compiler (documents "\x7bf:\x7d" ++ [last])).outcome = .ok c' ∧
        (∃ portrait, read (Runtime.walk c .translations).object.render = some portrait ∧
          portrait.Depicts c) ∧ ∀ p, c.describe? p = c'.describe? p := by
  intro documents last
  have hok : (Catalogue.merge Template.compiler (documents "\x7bf: n\x7d")).outcome.isOk = true := by
    cbv
  have hok' : (Catalogue.merge Template.compiler
      (documents "\x7bf:\x7d" ++ [last])).outcome.isOk = true := by cbv
  have hsame : ((Catalogue.merge Template.compiler (documents "\x7bf: n\x7d")).outcome.map fun c =>
      (Runtime.walk c .translations).object.render) =
        (Catalogue.merge Template.compiler (documents "\x7bf:\x7d" ++ [last])).outcome.map fun c =>
          (Runtime.walk c .translations).object.render := by cbv
  obtain ⟨c, hc⟩ := Except.exists_eq_ok hok
  obtain ⟨c', hc'⟩ := Except.exists_eq_ok hok'
  rw [hc, hc'] at hsame
  obtain ⟨hread, hother⟩ := depicts_read_merge hc
  exact ⟨c, c', hc, hc', hread, hother hc' (Except.ok.inj hsame)⟩

end Portrait

end Phrasebook
