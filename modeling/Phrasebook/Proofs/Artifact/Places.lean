import Phrasebook.Proofs.Artifact.Display

/-! # The places of nested properties

The names that lead to a nested property are its path (`Shape.paths`). Where no two properties have
the same path, siblings have different names, and names are followed to the property whose path they
are (`Shape.distinct_of_nodup`, `Shape.follow?_of_mem_places`). Both modules give the arranged
children of a view the same paths. -/

namespace Phrasebook

namespace Shape

variable {α β : Type}

mutual

/-- **The places of nested properties**: the names that lead to each, and the labels of leaves. -/
def places : Shape α → List (List Text × Option α)
  | .leaf label => [([], some label)]
  | .node properties => ([], none) :: placesOf properties

/-- The places in some properties. -/
def placesOf : List (Text × Shape α) → List (List Text × Option α)
  | [] => []
  | (name, shape) :: rest => (places shape).map (fun x => (name :: x.1, x.2)) ++ placesOf rest

end

/-- The names that lead to each property. -/
def paths (shape : Shape α) : List (List Text) := shape.places.map Prod.fst

/-- The names that lead to each of some properties. -/
def pathsOf (properties : List (Text × Shape α)) : List (List Text) :=
  (placesOf properties).map Prod.fst

mutual

/-- **Siblings have different names.** -/
def Distinct : Shape α → Prop
  | .leaf _ => True
  | .node properties => (OrderedMap.keys properties).Nodup ∧ AllDistinct properties

/-- Siblings have different names in all of some properties. -/
def AllDistinct : List (Text × Shape α) → Prop
  | [] => True
  | (_, shape) :: rest => Distinct shape ∧ AllDistinct rest

end

/-- What names lead to. -/
def follow? : List Text → Shape α → Option (Shape α)
  | [], shape => some shape
  | name :: rest, .node properties => (OrderedMap.get? name properties).bind (follow? rest)
  | _ :: _, .leaf _ => none

/-! ### Paths and names -/

theorem paths_node (properties : List (Text × Shape α)) :
    (node properties).paths = [] :: pathsOf properties := by
  unfold paths pathsOf
  rw [places, List.map_cons]

theorem pathsOf_cons (name : Text) (shape : Shape α) (rest : List (Text × Shape α)) :
    pathsOf ((name, shape) :: rest) = shape.paths.map (name :: ·) ++ pathsOf rest := by
  unfold pathsOf paths
  rw [placesOf, List.map_append, List.map_map, List.map_map]
  rfl

theorem nil_mem_paths (shape : Shape α) : [] ∈ shape.paths := by
  cases shape with
  | leaf label => exact List.mem_singleton_self _
  | node properties =>
    rw [paths_node]
    exact List.mem_cons_self

theorem mem_placesOf {x : List Text × Option α} : ∀ {properties : List (Text × Shape α)},
    x ∈ placesOf properties ↔ ∃ name shape rest,
      (name, shape) ∈ properties ∧ x.1 = name :: rest ∧ (rest, x.2) ∈ shape.places
  | [] => by
    rw [placesOf]
    constructor
    · intro h
      cases h
    · rintro ⟨_, _, _, h, -⟩
      cases h
  | (first, shape) :: others => by
    have ih := @mem_placesOf x others
    rw [placesOf, List.mem_append, ih, List.mem_map]
    constructor
    · rintro (⟨⟨rest, label⟩, hplace, rfl⟩ | ⟨name, other, rest, hmem, hx⟩)
      · exact ⟨first, shape, rest, List.mem_cons_self, rfl, hplace⟩
      · exact ⟨name, other, rest, List.mem_cons_of_mem _ hmem, hx⟩
    · rintro ⟨name, other, rest, hmem, hname, hplace⟩
      rcases List.mem_cons.mp hmem with hfirst | hmem
      · cases hfirst
        exact Or.inl ⟨_, hplace, Prod.ext hname.symm rfl⟩
      · exact Or.inr ⟨name, other, rest, hmem, hname, hplace⟩

theorem mem_keys_of_mem_pathsOf {properties : List (Text × Shape α)} {names : List Text}
    (h : names ∈ pathsOf properties) :
    ∃ name rest, names = name :: rest ∧ name ∈ OrderedMap.keys properties := by
  obtain ⟨x, hx, rfl⟩ := List.mem_map.mp h
  obtain ⟨name, shape, rest, hmem, hnames, -⟩ := mem_placesOf.mp hx
  exact ⟨name, rest, hnames, OrderedMap.mem_keys hmem⟩

theorem singleton_mem_pathsOf {name : Text} {properties : List (Text × Shape α)}
    (h : name ∈ OrderedMap.keys properties) : [name] ∈ pathsOf properties := by
  obtain ⟨⟨other, shape⟩, hmem, rfl⟩ := List.mem_map.mp h
  obtain ⟨⟨names, label⟩, hplace, hnil⟩ := List.mem_map.mp (nil_mem_paths shape)
  obtain rfl : names = [] := hnil
  have hmember : ([other], label) ∈ placesOf properties :=
    mem_placesOf.mpr ⟨other, shape, [], hmem, rfl, hplace⟩
  exact List.mem_map_of_mem hmember

mutual

/-- **Where paths differ, siblings have different names.** -/
theorem distinct_of_nodup : ∀ shape : Shape α, shape.paths.Nodup → shape.Distinct
  | .leaf label, _ => by
    rw [Distinct]
    trivial
  | .node properties, h => by
    rw [paths_node] at h
    rw [Distinct]
    exact allDistinct_of_nodup properties (List.nodup_cons.mp h).2

theorem allDistinct_of_nodup : ∀ properties : List (Text × Shape α), (pathsOf properties).Nodup →
    (OrderedMap.keys properties).Nodup ∧ AllDistinct properties
  | [], _ => by
    rw [AllDistinct]
    exact ⟨List.nodup_nil, trivial⟩
  | (name, shape) :: rest, h => by
    rw [pathsOf_cons] at h
    obtain ⟨hfirst, hothers, hdisjoint⟩ := List.nodup_append'.mp h
    obtain ⟨hkeys, hrest⟩ := allDistinct_of_nodup rest hothers
    have hnew : name ∉ OrderedMap.keys rest := by
      intro hmem
      exact hdisjoint (List.mem_map_of_mem (nil_mem_paths shape)) (singleton_mem_pathsOf hmem)
    rw [AllDistinct]
    exact ⟨List.nodup_cons.mpr ⟨hnew, hkeys⟩, distinct_of_nodup shape hfirst.of_map, hrest⟩

end

theorem AllDistinct.of_mem {properties : List (Text × Shape α)} (h : AllDistinct properties)
    {name : Text} {shape : Shape α} (hmem : (name, shape) ∈ properties) : shape.Distinct := by
  induction properties with
  | nil => cases hmem
  | cons first rest ih =>
    rw [AllDistinct] at h
    rcases List.mem_cons.mp hmem with rfl | hmem
    · exact h.1
    · exact ih h.2 hmem

/-- **The names of a place are followed to it.** -/
theorem follow?_of_mem_places {label : α} : ∀ {names : List Text} {shape : Shape α},
    shape.Distinct → (names, some label) ∈ shape.places → shape.follow? names = some (.leaf label)
  | [], .leaf other, _, h => by
    rw [places, List.mem_singleton] at h
    cases h
    rfl
  | name :: rest, .leaf other, _, h => by
    rw [places, List.mem_singleton] at h
    cases h
  | [], .node properties, _, h => by
    rw [places, List.mem_cons] at h
    rcases h with h | h
    · cases h
    · obtain ⟨_, _, _, _, hnames, -⟩ := mem_placesOf.mp h
      cases hnames
  | name :: rest, .node properties, hdistinct, h => by
    rw [Distinct] at hdistinct
    rw [places, List.mem_cons] at h
    rcases h with h | h
    · cases h
    · obtain ⟨_, shape, _, hmem, hnames, hplace⟩ := mem_placesOf.mp h
      cases hnames
      rw [follow?, OrderedMap.get?_of_mem hdistinct.1 hmem, Option.bind_some]
      exact follow?_of_mem_places (hdistinct.2.of_mem hmem) hplace

/-! ### Arranged children -/

theorem placesOf_append (first rest : List (Text × Shape α)) :
    placesOf (first ++ rest) = placesOf first ++ placesOf rest := by
  induction first with
  | nil =>
    rw [placesOf]
    rfl
  | cons property first ih => rw [List.cons_append, placesOf, ih, placesOf, List.append_assoc]

/-- **The runtime module has the places of the view**, in another order. -/
theorem perm_placesOf_shapes : ∀ children : List (Segment × Outline),
    (placesOf ((Runtime.shapes children).1 ++ (Runtime.shapes children).2)).Perm
      (placesOf (ofChildren KeyPath.key children))
  | [] => by
    rw [Runtime.shapes, ofChildren]
    exact .refl _
  | (segment, .leaf path) :: rest => by
    have ih := perm_placesOf_shapes rest
    rw [placesOf_append] at ih
    rw [Runtime.shapes, ofChildren, placesOf_append, placesOf, placesOf]
    exact (List.perm_append_comm_assoc _ _ _).trans (ih.append_left _)
  | (segment, .interior _ below) :: rest => by
    have ihbelow := perm_placesOf_shapes below
    have ihrest := perm_placesOf_shapes rest
    rw [Runtime.shapes, ofChildren, List.cons_append, placesOf, placesOf, places, places]
    exact ((ihbelow.cons _).map _).append ihrest

/-- The paths do not depend on the labels. -/
theorem pathsOf_ofChildren (label : KeyPath → α) (other : KeyPath → β) :
    ∀ children : List (Segment × Outline),
      pathsOf (ofChildren label children) = pathsOf (ofChildren other children)
  | [] => by
    rw [ofChildren, ofChildren]
    rfl
  | (segment, .leaf path) :: rest => by
    rw [ofChildren, ofChildren, pathsOf_cons, pathsOf_cons, pathsOf_ofChildren label other rest]
    rfl
  | (segment, .interior _ below) :: rest => by
    rw [ofChildren, ofChildren, pathsOf_cons, pathsOf_cons, paths_node, paths_node,
      pathsOf_ofChildren label other below, pathsOf_ofChildren label other rest]

theorem keys_ofChildren (label : KeyPath → α) : ∀ children : List (Segment × Outline),
    OrderedMap.keys (ofChildren label children) =
      (OrderedMap.keys children).map Segment.toText
  | [] => by
    rw [ofChildren]
    rfl
  | (segment, .leaf path) :: rest => by
    rw [ofChildren]
    exact congrArg (segment.toText :: ·) (keys_ofChildren label rest)
  | (segment, .interior _ below) :: rest => by
    rw [ofChildren]
    exact congrArg (segment.toText :: ·) (keys_ofChildren label rest)

section Arranges
variable {c : Catalogue} {p : KeyPath} {children : List (Segment × Outline)}

theorem not_mem_keys_ofChildren (h : c.Arranges p children) {name : Text}
    (hnew : Segment.name name ∉ OrderedMap.keys children) (label : KeyPath → α) :
    name ∉ OrderedMap.keys (ofChildren label children) := by
  rw [keys_ofChildren]
  intro hmem
  obtain ⟨segment, hsegment, rfl⟩ := List.mem_map.mp hmem
  rw [← h.eq_name_of_mem_keys hsegment] at hnew
  exact hnew hsegment

/-- **The paths of arranged children** differ. -/
theorem nodup_pathsOf (h : c.Arranges p children) (label : KeyPath → α) :
    (pathsOf (ofChildren label children)).Nodup := by
  -- The paths of the first child begin with its name, and those of the others do not.
  have hfirst : ∀ {name : Text} {rest : List (Segment × Outline)} {p : KeyPath} (shape : Shape α),
      shape.paths.Nodup → Segment.name name ∉ OrderedMap.keys rest → c.Arranges p rest →
        (pathsOf (ofChildren label rest)).Nodup →
          (pathsOf ((name, shape) :: ofChildren label rest)).Nodup := by
    intro name rest p shape hshape hnew hrest hothers
    rw [pathsOf_cons]
    refine List.nodup_append'.mpr ⟨hshape.map List.cons_injective, hothers, ?_⟩
    intro names hnames hmem
    obtain ⟨others, -, rfl⟩ := List.mem_map.mp hnames
    obtain ⟨other, _, hsame, hkey⟩ := mem_keys_of_mem_pathsOf hmem
    obtain ⟨rfl, -⟩ := List.cons.inj hsame
    exact not_mem_keys_ofChildren hrest hnew label hkey
  induction h with
  | nil =>
    rw [ofChildren]
    exact List.nodup_nil
  | @leaf p name rest e hnew he hpath hrest ih =>
    rw [ofChildren]
    exact hfirst _ (List.nodup_singleton _) hnew hrest ih
  | @interior p name below rest hnew hleaf hbelow hrest ihbelow ihrest =>
    have hpaths : (node (ofChildren label below)).paths.Nodup := by
      rw [paths_node, List.nodup_cons]
      refine ⟨?_, ihbelow⟩
      intro hnil
      obtain ⟨_, _, hcons, -⟩ := mem_keys_of_mem_pathsOf hnil
      cases hcons
    rw [ofChildren]
    exact hfirst _ hpaths hnew hrest ihrest

theorem eq_of_append_cons {p : KeyPath} {name : Text} {first : Segment} {rest steps : List Segment}
    (h : p.segments ++ first :: rest = (p.child (.name name)).segments ++ steps) :
    first = .name name ∧ rest = steps := by
  rw [KeyPath.segments_child, List.append_assoc] at h
  exact List.cons.inj (List.append_cancel_left h)

theorem segments_append_cons (p : KeyPath) (name : Text) (names : List Text) :
    p.segments ++ (name :: names).map Segment.name =
      (p.child (.name name)).segments ++ names.map Segment.name := by
  rw [KeyPath.segments_child, List.append_assoc]
  rfl

/-- Names that lead below a child begin with its name. -/
theorem exists_names_below {p : KeyPath} {name : Text} {names : List Text} {steps : List Segment}
    (h : (p.child (.name name)).segments ++ steps = p.segments ++ names.map .name) :
    ∃ rest, names = name :: rest ∧ rest.map .name = steps := by
  cases names with
  | nil =>
    have hlength := congrArg List.length h
    simp only [KeyPath.segments_child, List.length_append, List.length_singleton, List.map_nil,
      List.length_nil] at hlength
    omega
  | cons first rest =>
    obtain ⟨hname, hrest⟩ := eq_of_append_cons h.symm
    cases hname
    exact ⟨rest, rfl, hrest⟩

/-- **The leaves below arranged children** stand where their paths say. -/
theorem mem_placesOf_of_leaf (h : c.Arranges p children) (label : KeyPath → α) {q : KeyPath}
    (hq : q ∈ Outline.leavesOfChildren children) {names : List Text}
    (hnames : q.segments = p.segments ++ names.map .name) :
    (names, some (label q)) ∈ placesOf (ofChildren label children) := by
  induction h generalizing names with
  | nil => cases hq
  | @leaf p name rest e hnew he hpath hrest ih =>
    rw [ofChildren, placesOf, places, List.mem_append]
    rw [Outline.leavesOfChildren, Outline.leaves, List.singleton_append] at hq
    rcases List.mem_cons.mp hq with rfl | hq
    · obtain ⟨rest, rfl, hrest⟩ := exists_names_below ((List.append_nil _).trans hnames)
      rw [List.map_eq_nil_iff.mp hrest]
      exact Or.inl (List.mem_singleton_self _)
    · exact Or.inr (ih hq hnames)
  | @interior p name below rest hnew hleaf hbelow hrest ihbelow ihrest =>
    rw [ofChildren, placesOf, places, List.mem_append]
    rw [Outline.leavesOfChildren, Outline.leaves] at hq
    rcases List.mem_append.mp hq with hq | hq
    · obtain ⟨other, others, -, hsegments⟩ := hbelow.exists_names hq
      obtain ⟨rest, rfl, hrest⟩ := exists_names_below (hsegments.symm.trans hnames)
      have hplace := ihbelow hq (hsegments.trans (congrArg _ hrest.symm))
      exact Or.inl (List.mem_map_of_mem (List.mem_cons_of_mem _ hplace))
    · exact Or.inr (ihrest hq hnames)

/-- Names are a beginning of a path through a child just if they begin with the name of the child and
go on with a beginning of what follows. -/
theorem begins_iff {p q : KeyPath} {name : Text} (hq : (p.child (.name name)).segments <+: q.segments)
    {names : List Text} : names ≠ [] ∧ p.segments ++ names.map .name <+: q.segments ↔
      ∃ rest, names = name :: rest ∧
        (p.child (.name name)).segments ++ rest.map .name <+: q.segments := by
  constructor
  · rintro ⟨hne, hbegins⟩
    obtain ⟨first, rest, rfl⟩ := List.exists_cons_of_ne_nil hne
    obtain rfl : first = name := by
      obtain ⟨steps, hsteps⟩ := hq
      obtain ⟨more, hmore⟩ := hbegins
      rw [← hsteps, List.append_assoc] at hmore
      obtain ⟨hname, -⟩ := eq_of_append_cons hmore
      cases hname
      rfl
    rw [segments_append_cons] at hbegins
    exact ⟨rest, rfl, hbegins⟩
  · rintro ⟨rest, rfl, hrest⟩
    rw [segments_append_cons]
    exact ⟨List.cons_ne_nil _ _, hrest⟩

theorem begins_child_iff {p : KeyPath} {name : Text} {names : List Text} :
    names ≠ [] ∧ p.segments ++ names.map .name <+: (p.child (.name name)).segments ↔
      names = [name] := by
  rw [begins_iff List.prefix_rfl]
  constructor
  · rintro ⟨others, rfl, hothers⟩
    have hlength := hothers.length_le
    simp only [List.length_append, List.length_map] at hlength
    obtain rfl : others = [] := List.length_eq_zero_iff.mp (by omega)
    rfl
  · rintro rfl
    exact ⟨[], rfl, [], by rw [List.map_nil, List.append_nil, List.append_nil]⟩

/-- **The paths of arranged children** are the beginnings of the paths of their leaves. -/
theorem mem_pathsOf (h : c.Arranges p children) (label : KeyPath → α) {names : List Text} :
    names ∈ pathsOf (ofChildren label children) ↔ ∃ q ∈ Outline.leavesOfChildren children,
      names ≠ [] ∧ p.segments ++ names.map .name <+: q.segments := by
  induction h generalizing names with
  | nil =>
    rw [ofChildren, Outline.leavesOfChildren]
    constructor
    · intro hmem
      cases hmem
    · rintro ⟨_, hq, -⟩
      cases hq
  | @leaf p name rest e hnew he hpath hrest ih =>
    have hfirst : names ∈ [[name]] ↔
        names ≠ [] ∧ p.segments ++ names.map .name <+: (p.child (.name name)).segments := by
      rw [begins_child_iff, List.mem_singleton]
    rw [ofChildren, pathsOf_cons, List.mem_append, ih, Outline.leavesOfChildren, Outline.leaves,
      List.singleton_append, List.exists_mem_cons_iff]
    exact or_congr hfirst Iff.rfl
  | @interior p name below rest hnew hleaf hbelow hrest ihbelow ihrest =>
    have hbegins : ∀ q ∈ Outline.leavesOfChildren below,
        (p.child (.name name)).segments <+: q.segments := by
      intro q hq
      obtain ⟨_, _, -, hsegments⟩ := hbelow.exists_names hq
      exact ⟨_, hsegments.symm⟩
    have hfirst : names ∈ ([] :: pathsOf (ofChildren label below)).map (name :: ·) ↔
        ∃ q ∈ Outline.leavesOfChildren below,
          names ≠ [] ∧ p.segments ++ names.map .name <+: q.segments := by
      constructor
      · intro hmem
        obtain ⟨others, hothers, rfl⟩ := List.mem_map.mp hmem
        rcases List.mem_cons.mp hothers with rfl | hothers
        · obtain ⟨q, hq⟩ := List.exists_mem_of_ne_nil _ hleaf
          have hchild := hbegins q hq
          rw [← List.append_nil (p.child (.name name)).segments] at hchild
          exact ⟨q, hq, (begins_iff (hbegins q hq)).mpr ⟨[], rfl, hchild⟩⟩
        · obtain ⟨q, hq, -, hchild⟩ := ihbelow.mp hothers
          exact ⟨q, hq, (begins_iff (hbegins q hq)).mpr ⟨others, rfl, hchild⟩⟩
      · rintro ⟨q, hq, hnames⟩
        obtain ⟨others, rfl, hchild⟩ := (begins_iff (hbegins q hq)).mp hnames
        refine List.mem_map_of_mem (List.mem_cons.mpr ?_)
        rcases eq_or_ne others [] with hnil | hne
        · exact Or.inl hnil
        · exact Or.inr (ihbelow.mpr ⟨q, hq, hne, hchild⟩)
    rw [ofChildren, pathsOf_cons, paths_node, List.mem_append, ihrest, Outline.leavesOfChildren,
      Outline.leaves]
    simp only [List.mem_append, or_and_right, exists_or]
    exact or_congr hfirst Iff.rfl

end Arranges

end Shape

end Phrasebook
