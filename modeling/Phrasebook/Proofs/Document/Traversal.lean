import Phrasebook.Proofs.Document.Distinct
import Phrasebook.Proofs.Json.Token
import Phrasebook.Proofs.Schema.Translations

/-! # The order of a traversal

A traversal of documents meets the paths of their texts depth first and in order. Steps are seen
before others if some path that begins with them is met before all that begin with the others
(`SeenBefore`, `seenBefore_iff`). Where two paths part, the one whose next steps are seen first
precedes the other (`Precedes`). The traversal of one document with distinct keys meets the paths in
this order (`Document.pairwise_precedes`). -/

namespace Phrasebook

/-! ### What has been seen -/

/-- Some path begins with the steps. -/
def Seen (paths : List KeyPath) (steps : List Segment) : Prop := ∃ p ∈ paths, steps <+: p.segments

/-- **Steps are seen before others**: at some point of the traversal some path begins with them, and
none with the others. -/
def SeenBefore (paths : List KeyPath) (steps others : List Segment) : Prop :=
  ∃ past rest, paths = past ++ rest ∧ Seen past steps ∧ ¬ Seen past others

/-- **The number of the first path that begins with the steps**, or that of all paths if none
does. -/
def firstSeen (paths : List KeyPath) (steps : List Segment) : Nat :=
  paths.findIdx fun p => steps.isPrefixOf p.segments

section Seen
variable {paths more : List KeyPath} {steps others : List Segment}

theorem seen_append : Seen (paths ++ more) steps ↔ Seen paths steps ∨ Seen more steps := by
  unfold Seen
  simp only [List.mem_append, or_and_right, exists_or]

theorem seen_singleton {p : KeyPath} : Seen [p] steps ↔ steps <+: p.segments := by
  unfold Seen
  simp only [List.mem_singleton, exists_eq_left]

theorem SeenBefore.append_right (h : SeenBefore paths steps others) :
    SeenBefore (paths ++ more) steps others := by
  obtain ⟨past, rest, rfl, hseen, hnot⟩ := h
  exact ⟨past, rest ++ more, by rw [List.append_assoc], hseen, hnot⟩

theorem SeenBefore.append_left (h : SeenBefore paths steps others) (hnot : ¬ Seen more others) :
    SeenBefore (more ++ paths) steps others := by
  obtain ⟨past, rest, rfl, hseen, hpast⟩ := h
  refine ⟨more ++ past, rest, by rw [List.append_assoc], seen_append.mpr (.inr hseen), ?_⟩
  rw [seen_append, not_or]
  exact ⟨hnot, hpast⟩

theorem seen_take_iff {n : Nat} :
    Seen (paths.take n) steps ↔ firstSeen paths steps < n ∧ firstSeen paths steps < paths.length := by
  unfold Seen firstSeen
  constructor
  · rintro ⟨p, hp, hbegins⟩
    obtain ⟨i, hi, rfl⟩ := List.getElem_of_mem hp
    rw [List.length_take] at hi
    rw [List.getElem_take] at hbegins
    have hlength : i < paths.length := by omega
    have hfound : steps.isPrefixOf paths[i].segments = true :=
      List.isPrefixOf_iff_prefix.mpr hbegins
    have hle : paths.findIdx (fun p => steps.isPrefixOf p.segments) ≤ i := by
      by_contra hlt
      have hnot := List.not_of_lt_findIdx (Nat.lt_of_not_le hlt)
      rw [hfound] at hnot
      cases hnot
    omega
  · rintro ⟨hn, hlength⟩
    have hfound : steps.isPrefixOf paths[paths.findIdx fun p => steps.isPrefixOf p.segments].segments
        = true := List.findIdx_getElem (w := hlength)
    refine ⟨_, ?_, List.isPrefixOf_iff_prefix.mp hfound⟩
    exact List.mem_take_iff_getElem.mpr ⟨_, by omega, rfl⟩

/-- **Steps are seen before others just if the first path that begins with them is met first.** -/
theorem seenBefore_iff :
    SeenBefore paths steps others ↔ firstSeen paths steps < firstSeen paths others := by
  constructor
  · rintro ⟨past, rest, rfl, hseen, hnot⟩
    have htake : (past ++ rest).take past.length = past := List.take_left
    rw [← htake, seen_take_iff] at hseen hnot
    have hle : firstSeen (past ++ rest) others ≤ (past ++ rest).length := List.findIdx_le_length
    rw [List.length_append] at hseen hnot hle
    omega
  · intro hlt
    have hle : firstSeen paths others ≤ paths.length := List.findIdx_le_length
    refine ⟨paths.take (firstSeen paths others), paths.drop (firstSeen paths others),
      (List.take_append_drop _ _).symm, seen_take_iff.mpr ⟨hlt, by omega⟩, ?_⟩
    rw [seen_take_iff]
    omega

end Seen

/-! ### Where paths part -/

/-- **Two paths part** behind some steps: one goes on with one step, the other with another. -/
structure Forks (p q done : List Segment) (s t : Segment) : Prop where
  left : done ++ [s] <+: p
  right : done ++ [t] <+: q
  ne : s ≠ t

section Forks
variable {p q done done' common : List Segment} {s t s' t' : Segment}

theorem eq_of_concat_begins (hs : done ++ [s] <+: p) (ht : done ++ [t] <+: p) : s = t := by
  have hbegins : done ++ [s] <+: done ++ [t] :=
    List.prefix_of_prefix_length_le hs ht (by simp)
  have hsame := hbegins.eq_of_length (by simp)
  exact List.singleton_inj.mp (List.append_cancel_left hsame)

theorem concat_begins (h : p = done ++ s :: q) : done ++ [s] <+: p :=
  ⟨q, by rw [h, List.append_assoc, List.singleton_append]⟩

/-- No path is longer than itself. -/
theorem not_concat_begins : ¬ done ++ [s] <+: done := by
  intro h
  have hlength := h.length_le
  rw [List.length_append, List.length_singleton] at hlength
  omega

theorem Forks.symm (h : Forks p q done s t) : Forks q p done t s := ⟨h.right, h.left, h.ne.symm⟩

/-- What both paths begin with lies before the place where they part. -/
theorem Forks.prefix_of_common (h : Forks p q done s t) (hp : common <+: p) (hq : common <+: q) :
    common <+: done := by
  rcases Nat.lt_or_ge done.length common.length with hlt | hle
  · have hlength : ∀ u : Segment, (done ++ [u]).length ≤ common.length := by
      intro u
      rwa [List.length_append, List.length_singleton]
    have hs := List.prefix_of_prefix_length_le h.left hp (hlength s)
    have ht := List.prefix_of_prefix_length_le h.right hq (hlength t)
    exact absurd (eq_of_concat_begins hs ht) h.ne
  · exact List.prefix_of_prefix_length_le hp ((List.prefix_append _ _).trans h.left) hle

theorem Forks.unique (h : Forks p q done s t) (h' : Forks p q done' s' t') :
    done = done' ∧ s = s' ∧ t = t' := by
  have hdone : done <+: done' := h'.prefix_of_common ((List.prefix_append _ _).trans h.left)
    ((List.prefix_append _ _).trans h.right)
  have hdone' : done' <+: done := h.prefix_of_common ((List.prefix_append _ _).trans h'.left)
    ((List.prefix_append _ _).trans h'.right)
  obtain rfl := hdone.eq_of_length_le hdone'.length_le
  exact ⟨rfl, eq_of_concat_begins h.left h'.left, eq_of_concat_begins h.right h'.right⟩

/-- Paths of which neither begins the other part somewhere. -/
theorem exists_forks (hpq : ¬ p <+: q) (hqp : ¬ q <+: p) : ∃ done s t, Forks p q done s t := by
  induction p generalizing q with
  | nil => exact absurd List.nil_prefix hpq
  | cons s p ih =>
    cases q with
    | nil => exact absurd List.nil_prefix hqp
    | cons t q =>
      by_cases hst : s = t
      · subst hst
        rw [List.cons_prefix_cons] at hpq hqp
        obtain ⟨done, s', t', h⟩ := ih (fun h => hpq ⟨rfl, h⟩) fun h => hqp ⟨rfl, h⟩
        refine ⟨s :: done, s', t', ?_, ?_, h.ne⟩
        · exact List.cons_prefix_cons.mpr ⟨rfl, h.left⟩
        · exact List.cons_prefix_cons.mpr ⟨rfl, h.right⟩
      · exact ⟨[], s, t, List.cons_prefix_cons.mpr ⟨rfl, List.nil_prefix⟩,
          List.cons_prefix_cons.mpr ⟨rfl, List.nil_prefix⟩, hst⟩

/-- **Two paths first differ** in the step of a number. -/
structure DifferAt (p q : List Segment) (i : Nat) : Prop where
  same : p.take i = q.take i
  left : i < p.length
  right : i < q.length
  differ : p[i]? ≠ q[i]?

/-- Paths that first differ in a step part behind those before it. -/
theorem DifferAt.exists_forks {i : Nat} (h : DifferAt p q i) :
    ∃ done s t, Forks p q done s t ∧ p.take (i + 1) = done ++ [s] ∧ q.take (i + 1) = done ++ [t] := by
  have hleft := h.left
  have hright := h.right
  have hp : p.take (i + 1) = p.take i ++ [p[i]] := List.take_succ_eq_append_getElem hleft
  have hq : q.take (i + 1) = p.take i ++ [q[i]] := by
    rw [h.same]
    exact List.take_succ_eq_append_getElem hright
  refine ⟨p.take i, p[i], q[i], ⟨?_, ?_, fun hsame => h.differ ?_⟩, hp, hq⟩
  · rw [← hp]
    exact List.take_prefix _ _
  · rw [← hq]
    exact List.take_prefix _ _
  · rw [List.getElem?_eq_getElem hleft, List.getElem?_eq_getElem hright, hsame]

theorem Forks.exists_differAt (h : Forks p q done s t) : ∃ i, DifferAt p q i := by
  obtain ⟨ps, rfl⟩ := h.left
  obtain ⟨qs, rfl⟩ := h.right
  have hne := h.ne
  refine ⟨done.length, ?_, ?_, ?_, ?_⟩
  · simp
  · simp
  · simp
  · simpa using hne

end Forks

/-- **A path precedes another**: where they part, the next steps of the one are seen before those of
the other. -/
def Precedes (paths : List KeyPath) (p q : KeyPath) : Prop :=
  ∃ done s t, Forks p.segments q.segments done s t ∧
    SeenBefore paths (done ++ [s]) (done ++ [t])

section Precedes
variable {paths more : List KeyPath} {p q : KeyPath}

theorem Precedes.asymm (h : Precedes paths p q) : ¬ Precedes paths q p := by
  rintro ⟨done', s', t', hforks', hbefore'⟩
  obtain ⟨done, s, t, hforks, hbefore⟩ := h
  obtain ⟨rfl, rfl, rfl⟩ := hforks.unique hforks'.symm
  rw [seenBefore_iff] at hbefore hbefore'
  omega

theorem not_precedes_self : ¬ Precedes paths p p := fun h => h.asymm h

theorem Precedes.append_right (h : Precedes paths p q) : Precedes (paths ++ more) p q := by
  obtain ⟨done, s, t, hforks, hbefore⟩ := h
  exact ⟨done, s, t, hforks, hbefore.append_right⟩

/-- Paths that go on from some steps with one step are met before paths that go on with others: the
order among the ones and the order among the others are the order among all. -/
theorem pairwise_precedes_append {done : List Segment} {s : Segment} {front back : List KeyPath}
    (hfront : ∀ p ∈ front, done ++ [s] <+: p.segments)
    (hback : ∀ q ∈ back, ∃ t, t ≠ s ∧ done ++ [t] <+: q.segments)
    (h : front.Pairwise (Precedes front)) (h' : back.Pairwise (Precedes back)) :
    (front ++ back).Pairwise (Precedes (front ++ back)) := by
  refine List.pairwise_append.mpr ⟨h.imp fun hpq => hpq.append_right, ?_, ?_⟩
  · refine h'.imp_of_mem fun {p q} hp hq hpq => ?_
    obtain ⟨at_, u, v, hforks, hbefore⟩ := hpq
    refine ⟨at_, u, v, hforks, hbefore.append_left ?_⟩
    -- Both paths go on from `done`, so they part behind it; no path in front begins so.
    rintro ⟨other, hother, hbegins⟩
    obtain ⟨x, -, hx⟩ := hback p hp
    obtain ⟨y, hys, hy⟩ := hback q hq
    have hdone : done <+: at_ := hforks.prefix_of_common ((List.prefix_append _ _).trans hx)
      ((List.prefix_append _ _).trans hy)
    have hlength : (done ++ [y]).length ≤ (at_ ++ [v]).length := by
      simpa using hdone.length_le
    have hlonger : done ++ [y] <+: at_ ++ [v] :=
      List.prefix_of_prefix_length_le hy hforks.right hlength
    exact hys (eq_of_concat_begins (hlonger.trans hbegins) (hfront other hother))
  · intro p hp q hq
    obtain ⟨t, hts, ht⟩ := hback q hq
    refine ⟨done, s, t, ⟨hfront p hp, ht, hts.symm⟩, front, back, rfl, ⟨p, hp, hfront p hp⟩, ?_⟩
    rintro ⟨other, hother, hbegins⟩
    exact hts (eq_of_concat_begins hbegins (hfront other hother))

end Precedes

/-! ### The traversal of a document -/

/-- The paths of the texts among some values. -/
def textPaths (values : List (KeyPath × Datum Foreign)) : List KeyPath :=
  (Ledger.texts values).map (·.1)

theorem textPaths_append (xs ys : List (KeyPath × Datum Foreign)) :
    textPaths (xs ++ ys) = textPaths xs ++ textPaths ys := by
  unfold textPaths
  rw [Ledger.texts_append, List.map_append]

theorem mem_textPaths {values : List (KeyPath × Datum Foreign)} {p : KeyPath} :
    p ∈ textPaths values ↔ ∃ t, (p, .text t) ∈ values := by
  unfold textPaths
  rw [List.mem_map]
  constructor
  · rintro ⟨⟨path, t⟩, hmem, rfl⟩
    exact ⟨t, Ledger.mem_texts.mp hmem⟩
  · rintro ⟨t, hmem⟩
    exact ⟨(p, t), Ledger.mem_texts.mpr hmem, rfl⟩

/-- **The paths of the texts of a document**, in the order of a traversal. -/
def Document.paths (d : Document) : List KeyPath := d.translations.map (·.path)

/-- **The paths of the texts of documents**, in the order of a traversal of one after the other. -/
def pathsOf (documents : List Document) : List KeyPath := (translationsOf documents).map (·.path)

theorem Document.paths_eq (d : Document) : d.paths = textPaths (d.tree.subtrees .root) := by
  unfold paths translations textPaths
  rw [List.map_map]
  rfl

theorem pathsOf_cons (d : Document) (rest : List Document) :
    pathsOf (d :: rest) = d.paths ++ pathsOf rest := by
  unfold pathsOf translationsOf
  rw [List.flatMap_cons, List.map_append]
  rfl

namespace Datum

theorem prefix_of_mem_textPaths {tree : Datum Foreign} {path p : KeyPath}
    (h : p ∈ textPaths (tree.subtrees path)) : path.segments <+: p.segments := by
  obtain ⟨t, hmem⟩ := mem_textPaths.mp h
  obtain ⟨steps, -, hp⟩ := (mem_subtrees tree path).mp hmem
  rw [hp]
  exact List.prefix_append _ _

theorem pairwise_precedes_of_not_container {tree : Datum Foreign} (h : tree.isContainer = false)
    (path : KeyPath) :
    (textPaths (tree.subtrees path)).Pairwise (Precedes (textPaths (tree.subtrees path))) := by
  rw [subtrees_of_not_container h]
  cases tree with
  | text t => exact List.pairwise_singleton _ _
  | _ => exact .nil

mutual

/-- **The traversal of a tree with distinct keys meets paths in their order.** -/
theorem pairwise_precedes : ∀ (tree : Datum Foreign) (path : KeyPath), tree.Distinct →
    (textPaths (tree.subtrees path)).Pairwise (Precedes (textPaths (tree.subtrees path)))
  | .map entries, path, h => by
    obtain ⟨hkeys, hvalues⟩ := h.of_map
    rw [subtrees]
    exact pairwise_precedes_entries entries path hkeys hvalues
  | .list items, path, h => by
    rw [subtrees]
    exact pairwise_precedes_items items path 0 h.of_list
  | .text _, path, _ => pairwise_precedes_of_not_container rfl path
  | .null, path, _ => pairwise_precedes_of_not_container rfl path
  | .bool _, path, _ => pairwise_precedes_of_not_container rfl path
  | .number _, path, _ => pairwise_precedes_of_not_container rfl path
  | .tuple _, path, _ => pairwise_precedes_of_not_container rfl path
  | .other _, path, _ => pairwise_precedes_of_not_container rfl path

theorem pairwise_precedes_items : ∀ (items : List (Datum Foreign)) (path : KeyPath)
    (position : Nat), (∀ item ∈ items, item.Distinct) →
      (textPaths (subtreesOfItems path position items)).Pairwise
        (Precedes (textPaths (subtreesOfItems path position items)))
  | [], path, position, _ => by
    rw [subtreesOfItems]
    exact .nil
  | item :: rest, path, position, h => by
    obtain ⟨hitem, hrest⟩ := List.forall_mem_cons.mp h
    rw [subtreesOfItems, textPaths_append]
    refine pairwise_precedes_append (fun p hp => prefix_of_mem_textPaths hp) ?_
      (pairwise_precedes item _ hitem) (pairwise_precedes_items rest path _ hrest)
    intro q hq
    obtain ⟨t, hmem⟩ := mem_textPaths.mp hq
    obtain ⟨i, other, steps, -, -, hsegments⟩ := (mem_subtreesOfItems rest path _).mp hmem
    refine ⟨_, fun hsame => ?_, concat_begins hsegments⟩
    have hnumber := congrArg Numeral.toNat (Segment.name.inj hsame)
    rw [Json.toNat_ofNat, Json.toNat_ofNat] at hnumber
    omega

theorem pairwise_precedes_entries : ∀ (entries : List (DatumKey × Datum Foreign))
    (path : KeyPath), (entries.map fun entry => entry.1.toText).Nodup →
      (∀ entry ∈ entries, entry.2.Distinct) →
        (textPaths (subtreesOfEntries path entries)).Pairwise
          (Precedes (textPaths (subtreesOfEntries path entries)))
  | [], path, _, _ => by
    rw [subtreesOfEntries]
    exact .nil
  | (key, value) :: rest, path, hkeys, h => by
    obtain ⟨hvalue, hrest⟩ := List.forall_mem_cons.mp h
    obtain ⟨hkey, hothers⟩ := List.nodup_cons.mp hkeys
    rw [subtreesOfEntries, textPaths_append]
    refine pairwise_precedes_append (fun p hp => prefix_of_mem_textPaths hp) ?_
      (pairwise_precedes value _ hvalue) (pairwise_precedes_entries rest path hothers hrest)
    intro q hq
    obtain ⟨t, hmem⟩ := mem_textPaths.mp hq
    obtain ⟨name, other, steps, hentry, -, hsegments⟩ := (mem_subtreesOfEntries rest path).mp hmem
    refine ⟨_, fun hsame => hkey ?_, concat_begins hsegments⟩
    exact List.mem_map.mpr ⟨(name, other), hentry, Segment.name.inj hsame⟩

end

end Datum

theorem Document.pairwise_precedes {d : Document} (h : d.tree.Distinct) :
    d.paths.Pairwise (Precedes d.paths) := by
  rw [d.paths_eq]
  exact Datum.pairwise_precedes d.tree .root h

end Phrasebook
