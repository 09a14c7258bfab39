import Phrasebook.Proofs.Artifact.Emission
import Phrasebook.Proofs.Artifact.Places

/-! # Agreement of both modules

The object of the runtime module and the type of the declaration module have the same properties,
the tables of both have the keys that are shown, and each accessor leads to the leaf of its key
(`Catalogue.Matched`). All this holds whatever the templates are compiled with; what brace templates
are compiled to is told apart from what stands around it, so that there the properties are also read
from the text of both modules (`Catalogue.Legible`, `Catalogue.matched_addDocuments`). -/

namespace Phrasebook

/-! ### Accessors -/

namespace Runtime

/-- The names in the subscripts that a text is, up to a number of them. -/
def subscripts? : Nat → Text → Option (List Text)
  | 0, t => if t = [] then some [] else none
  | count + 1, t =>
    if t = [] then some []
    else
      (Text.dropBeginning? "[" t).bind fun t =>
        (Script.string? t).bind fun (name, t) =>
          (Text.dropBeginning? "]" t).bind fun t => (subscripts? count t).map (name :: ·)

/-- **The key of an entry of the table of accessors**, and the names that its function follows. -/
def readAccessor (t : Text) : Option (Text × List Text) :=
  (Text.between? "[" "]" t).bind fun t =>
    (Script.string? t).bind fun (key, t) =>
      (Text.dropBeginning? ", (t) => t" t).bind fun t =>
        (subscripts? t.length t).map fun names => (key, names)

/-- The subscripts of some names. -/
def subscripts (names : List Text) : Text :=
  names.flatMap fun name => Segment.subscript (.name name)

theorem subscripts_cons (name : Text) (names : List Text) :
    subscripts (name :: names) = "[" ++ (name.literal ++ ("]" ++ subscripts names)) := by
  unfold subscripts
  rw [List.flatMap_cons, Segment.subscript, List.append_assoc, List.append_assoc]

theorem length_le_subscripts (names : List Text) : names.length ≤ (subscripts names).length := by
  induction names with
  | nil => exact Nat.le_refl 0
  | cons name names ih =>
    have hbracket : (Text.ofString "]").length = 1 := rfl
    rw [subscripts_cons]
    simp only [List.length_cons, List.length_append, hbracket]
    omega

/-- **Subscripts are read back.** -/
theorem subscripts?_subscripts {names : List Text} {count : Nat} (h : names.length ≤ count) :
    subscripts? count (subscripts names) = some names := by
  induction names generalizing count with
  | nil => cases count <;> rfl
  | cons name names ih =>
    cases count with
    | zero => cases h
    | succ count =>
      have hread := ih (Nat.le_of_succ_le_succ h)
      have hne : subscripts (name :: names) ≠ [] := by
        rw [subscripts_cons]
        exact List.cons_ne_nil _ _
      have hname : Script.string? (name.literal ++ ("]" ++ subscripts names)) =
          some (name, "]" ++ subscripts names) :=
        Script.string?_literal name (c := CodePoint.ofChar ']') (by decide) _
      rw [subscripts?, if_neg hne, subscripts_cons]
      simp only [Text.dropBeginning?_append, Option.bind_some, hname, hread, Option.map_some]

theorem readAccessor_tableEntry {e : Entry} {names : List Text}
    (h : e.path.segments = names.map .name) :
    readAccessor (tableEntry e).render = some (e.key, names) := by
  have haccessor : e.path.accessor = subscripts names := by
    unfold KeyPath.accessor subscripts
    rw [h, List.flatMap_map]
  have htext : (tableEntry e).render =
      "[" ++ (e.key.quoted ++ (", (t) => t" ++ subscripts names)) ++ "]" := by
    unfold tableEntry
    rw [Fragment.render_code, Code.render_concat, haccessor]
    simp only [List.map_cons, List.map_nil, List.flatten_cons, List.flatten_nil, List.append_nil,
      Fragment.render_plain, List.append_assoc]
  have hkey : Script.string? (e.key.quoted ++ (", (t) => t" ++ subscripts names)) =
      some (e.key, ", (t) => t" ++ subscripts names) :=
    Script.string?_quoted e.key (c := CodePoint.ofChar ',') (by decide) _
  unfold readAccessor
  rw [htext, Text.between?_append]
  simp only [Option.bind_some, hkey, Text.dropBeginning?_append,
    subscripts?_subscripts (length_le_subscripts names), Option.map_some]

end Runtime

/-! ### Keys that are shown -/

namespace Catalogue

/-- **The keys that are shown**, in the order of the tree: all of them as texts, and those with
formatters as snippets. -/
def shownKeys (c : Catalogue) : Showing → List Text
  | .translations => c.arena.keys
  | .snippets => c.arena.keys.filter fun key =>
    (c.entries.get? key).any fun e => e.signature.hasFormatters

theorem isShown_snippets (c : Catalogue) (path : KeyPath) : c.isShown .snippets path =
    (c.entries.get? path.key).any fun e => e.signature.hasFormatters := by
  show ((c.entries.get? path.key).map fun e => e.signature.hasFormatters).getD false = _
  cases c.entries.get? path.key <;> rfl

theorem shownKeys_eq (c : Catalogue) (showing : Showing) :
    c.shownKeys showing = (c.arena.leaves.filter (c.isShown showing)).map KeyPath.key := by
  cases showing with
  | translations =>
    have hall : (c.isShown .translations) = fun _ => true := rfl
    rw [hall, List.filter_true]
    rfl
  | snippets =>
    have hshown : c.isShown .snippets =
        (fun key => (c.entries.get? key).any fun e => e.signature.hasFormatters) ∘ KeyPath.key :=
      funext c.isShown_snippets
    unfold shownKeys Arena.keys
    rw [hshown, List.filter_map]

theorem mem_shown {c : Catalogue} {showing : Showing} {p : KeyPath} :
    p ∈ c.arena.leaves.filter (c.isShown showing) ↔
      p ∈ c.arena.leaves ∧ p.key ∈ c.shownKeys showing := by
  rw [List.mem_filter, and_congr_right_iff]
  intro hp
  have hkey : p.key ∈ c.arena.keys := List.mem_map_of_mem hp
  cases showing with
  | translations => exact ⟨fun _ => hkey, fun _ => rfl⟩
  | snippets =>
    unfold shownKeys
    rw [List.mem_filter, isShown_snippets]
    exact ⟨fun h => ⟨hkey, h⟩, fun h => h.2⟩

/-! ### Both modules -/

/-- **Both modules agree** about the keys that are shown: their tables have these keys, and the
object of the runtime module and the declared type have the same nested properties. -/
structure Matched (c : Catalogue) (showing : Showing) (accessors : List (Text × List Text))
    (object : Shape Text) (type : Shape Unit) : Prop where
  accessors_read : (Runtime.walk c showing).table.map (fun f => Runtime.readAccessor f.render) =
    accessors.map some
  object_emitted : Runtime.Emits (.code (Runtime.walk c showing).object) object
  type_emitted : Declarations.Emits showing (.code (Declarations.walk c showing).type) type
  /-- Both tables have the keys that are shown, in their order and each once. -/
  accessor_keys : accessors.map Prod.fst = c.shownKeys showing
  parameter_keys : (Declarations.walk c showing).table.map
    (fun f => Declarations.readKey f.render) = (c.shownKeys showing).map some
  nodup : (c.shownKeys showing).Nodup
  /-- An interior node but the root is emitted just if a leaf that is shown lies below it. -/
  interior : ∀ id path children, c.arena.node? id = some (.interior path children) → id ≠ 0 →
    (path.segments.map Segment.toText ∈ object.paths ↔ ∃ steps leaf p,
      c.arena.follow? id steps = some leaf ∧ c.arena.node? leaf = some (.leaf p) ∧
        p.key ∈ c.shownKeys showing)
  /-- Nothing else is emitted but the leaves that are shown. -/
  emitted : ∀ names, names ∈ object.paths ↔ names = [] ∨ ∃ p ∈ c.arena.leaves,
    p.key ∈ c.shownKeys showing ∧ names.map .name <+: p.segments
  paths : object.paths.Perm type.paths
  distinct : object.Distinct ∧ type.Distinct
  /-- Each accessor leads to the leaf of its key. -/
  leads : ∀ accessor ∈ accessors, object.follow? accessor.2 = some (.leaf accessor.1)

/-- **The text of both modules** is read as the nested properties, and as the table of parameters. -/
structure Legible (c : Catalogue) (showing : Showing) (object : Shape Text) (type : Shape Unit) :
    Prop where
  object_read : Shape.read Runtime.layer? (Runtime.walk c showing).object.render = some object
  type_read : Shape.read Declarations.layer? (Declarations.walk c showing).type.render = some type
  parameters_read : (Declarations.walk c showing).table.map
    (fun f => (Declarations.readEntry f.render).map Prod.fst) = (c.shownKeys showing).map some

/-- The nested properties of the runtime object. -/
def shownObject (c : Catalogue) (showing : Showing) : Shape Text :=
  let shapes := Runtime.shapes (c.view showing).children
  .node (shapes.1 ++ shapes.2)

/-- The nested properties of the declared type. -/
def shownType (c : Catalogue) (showing : Showing) : Shape Unit :=
  .node (Shape.ofChildren (fun _ => ()) (c.view showing).children)

theorem paths_shownObject (c : Catalogue) (showing : Showing) :
    (c.shownObject showing).paths.Perm (c.shownType showing).paths := by
  unfold shownObject shownType
  rw [Shape.paths_node, Shape.paths_node, Shape.pathsOf_ofChildren (fun _ => ()) KeyPath.key]
  exact ((Shape.perm_placesOf_shapes _).map Prod.fst).cons []

section Contents
variable {compiler : Compiler} {documents : List Document} {c : Catalogue}
  (h : c.Contents compiler (translationsOf documents))
include h

theorem exists_entry_of_mem_leaves {p : KeyPath} (hp : p ∈ c.arena.leaves) :
    ∃ e, c.entry? p = some e ∧ e.path = p :=
  h.exists_entry (h.find?_leaf.mp (h.rooted.mem_leaves.mp hp))

theorem exists_names_of_mem_leaves {p : KeyPath} (hp : p ∈ c.arena.leaves) :
    p.segments = (p.segments.map Segment.toText).map .name := by
  obtain ⟨id, -, hleaf⟩ := Option.bind_eq_some_iff.mp (h.rooted.mem_leaves.mp hp)
  obtain ⟨names, hnames⟩ := h.exists_names hleaf
  obtain rfl : p = ⟨names.map .name⟩ := hnames
  rw [List.map_map, List.map_map]
  rfl

/-- What is read from a table, given what is read from the entry of each key that is shown. -/
theorem map_table {α : Type} (entry : Entry → Fragment) (read : Text → Option α) (f : KeyPath → α)
    (showing : Showing) (hread : ∀ p ∈ c.arena.leaves, ∀ e, c.entry? p = some e → e.path = p →
      read (entry e).render = some (f p)) :
    ((c.arena.leaves.filter (c.isShown showing)).filterMap fun path =>
      (c.entry? path).map entry).map (fun x => read x.render) =
        ((c.arena.leaves.filter (c.isShown showing)).map f).map some := by
  rw [List.map_filterMap, List.map_map, ← List.filterMap_eq_map]
  refine List.filterMap_congr fun p hp => ?_
  have hleaf := List.mem_of_mem_filter hp
  obtain ⟨e, he, hpath⟩ := exists_entry_of_mem_leaves h hleaf
  rw [he]
  exact congrArg some (hread p hleaf e he hpath)

/-- **The table of accessors** has the paths that are shown. -/
theorem accessors_walk (showing : Showing) :
    (Runtime.walk c showing).table.map (fun f => Runtime.readAccessor f.render) =
      ((c.arena.leaves.filter (c.isShown showing)).map fun p =>
        (p.key, p.segments.map Segment.toText)).map some := by
  rw [Runtime.table_walk h.rooted]
  refine map_table h Runtime.tableEntry Runtime.readAccessor _ showing ?_
  rintro p hp e - rfl
  exact Runtime.readAccessor_tableEntry (exists_names_of_mem_leaves h hp)

/-- **The table of parameters** has the keys that are shown. -/
theorem parameters_walk (showing : Showing) : (Declarations.walk c showing).table.map
    (fun f => Declarations.readKey f.render) = (c.shownKeys showing).map some := by
  rw [Declarations.table_walk h.rooted, shownKeys_eq]
  refine map_table h (Declarations.tableEntry showing) Declarations.readKey _ showing ?_
  rintro p hp e - rfl
  exact Declarations.readKey_tableEntry showing e

theorem nodup_paths_shownType (showing : Showing) : (c.shownType showing).paths.Nodup := by
  unfold shownType
  rw [Shape.paths_node, List.nodup_cons]
  refine ⟨?_, Shape.nodup_pathsOf (h.arranges_view showing) _⟩
  intro hnil
  obtain ⟨_, _, hcons, -⟩ := Shape.mem_keys_of_mem_pathsOf hnil
  cases hcons

theorem mem_paths_shownObject {showing : Showing} {names : List Text} :
    names ∈ (c.shownObject showing).paths ↔ names = [] ∨ ∃ p ∈ c.arena.leaves,
      p.key ∈ c.shownKeys showing ∧ names.map .name <+: p.segments := by
  rw [(paths_shownObject c showing).mem_iff, shownType, Shape.paths_node, List.mem_cons,
    Shape.mem_pathsOf (h.arranges_view showing), leaves_view h.rooted]
  by_cases hnil : names = []
  · simp only [hnil, true_or]
  · simp only [hnil, false_or, ne_eq, not_false_eq_true, true_and, mem_shown, and_assoc]
    rfl

/-- **An interior node but the root is emitted** just if a leaf that is shown lies below it. -/
theorem mem_paths_interior {showing : Showing} {id : Nat} {path : KeyPath}
    {children : OrderedMap Segment Nat} (hn : c.arena.node? id = some (.interior path children))
    (hroot : id ≠ 0) : path.segments.map Segment.toText ∈ (c.shownObject showing).paths ↔
      ∃ steps leaf p, c.arena.follow? id steps = some leaf ∧ c.arena.node? leaf = some (.leaf p) ∧
        p.key ∈ c.shownKeys showing := by
  have hreached : c.arena.follow? Arena.root path.segments = some id := h.rooted.reached hn
  obtain ⟨names, hnames⟩ := h.exists_names hn
  obtain rfl : path = ⟨names.map .name⟩ := hnames
  have htexts : (names.map Segment.name).map Segment.toText = names := by
    rw [List.map_map]
    exact List.map_id names
  have hne : names ≠ [] := by
    rintro rfl
    cases hreached
    exact hroot rfl
  rw [htexts, mem_paths_shownObject h, or_iff_right hne]
  constructor
  · rintro ⟨p, hp, hkey, steps, hsteps⟩
    obtain ⟨leaf, hleaf, hnode⟩ := Option.bind_eq_some_iff.mp (h.rooted.mem_leaves.mp hp)
    rw [← hsteps, Arena.follow?_append, hreached, Option.bind_some] at hleaf
    exact ⟨steps, leaf, p, hleaf, hnode, hkey⟩
  · rintro ⟨steps, leaf, p, hsteps, hleaf, hkey⟩
    have hfollowed : c.arena.follow? Arena.root (names.map .name ++ steps) = some leaf := by
      rw [Arena.follow?_append, hreached, Option.bind_some, hsteps]
    have hsame := h.rooted.follow?_injective (h.rooted.reached hleaf) hfollowed
    exact ⟨p, h.rooted.mem_leaves.mpr (h.rooted.find?_path hleaf), hkey, steps, hsame.symm⟩

theorem follow?_shownObject {showing : Showing} {p : KeyPath}
    (hp : p ∈ c.arena.leaves.filter (c.isShown showing)) :
    (c.shownObject showing).follow? (p.segments.map Segment.toText) = some (.leaf p.key) := by
  have hnames := exists_names_of_mem_leaves h (List.mem_of_mem_filter hp)
  have hdistinct : (c.shownObject showing).Distinct := Shape.distinct_of_nodup _
    ((paths_shownObject c showing).nodup_iff.mpr (nodup_paths_shownType h showing))
  rw [← leaves_view h.rooted] at hp
  have hplace := Shape.mem_placesOf_of_leaf (h.arranges_view showing) KeyPath.key hp hnames
  refine Shape.follow?_of_mem_places hdistinct ?_
  rw [shownObject, Shape.places]
  exact List.mem_cons_of_mem _ ((Shape.perm_placesOf_shapes _).mem_iff.mpr hplace)

end Contents

/-- What brace templates are compiled to leaves both modules legible. -/
theorem legible_addDocuments {guard : NestingGuard} {documents : List Document} {c : Catalogue}
    (h : (addDocuments Template.compiler guard {} documents).outcome = .ok c) (showing : Showing) :
    c.Legible showing (c.shownObject showing) (c.shownType showing) := by
  have hc := contents_addDocuments h
  have hbalanced := balanced_addDocuments h
  have harranges := hc.arranges_view showing
  have hobject : Shape.Displays Runtime.layer? (Runtime.walk c showing).object.render
      (c.shownObject showing) := by
    obtain ⟨hnested, hleaves⟩ := Runtime.displays_walkChildren hbalanced showing harranges 0
    exact Runtime.displays_object (Runtime.balanced_walk hbalanced showing) hnested hleaves
  have htype : Shape.Displays Declarations.layer? (Declarations.walk c showing).type.render
      (c.shownType showing) :=
    Declarations.displays_type (Declarations.balanced_walk c showing)
      (Declarations.displays_walkChildren showing harranges)
  refine ⟨hobject.read, htype.read, ?_⟩
  rw [Declarations.table_walk hc.rooted, shownKeys_eq]
  refine map_table hc (Declarations.tableEntry showing)
    (fun t => (Declarations.readEntry t).map Prod.fst) _ showing ?_
  rintro p hp e he rfl
  have hnames := Declarations.wellNamed_signature hc (OrderedMap.mem_of_get? he)
  rw [Declarations.readEntry_tableEntry showing hnames]
  rfl

end Catalogue

end Phrasebook
