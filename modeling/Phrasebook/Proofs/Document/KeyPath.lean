import Mathlib.Data.List.Induction
import Phrasebook.Document.KeyPath

/-! # Beginnings of paths

The ancestors of a path are its proper beginnings but the root (`mem_ancestors`), in the order in
which a walk down the path meets them (`ancestors_eq_beginnings`). -/

namespace Phrasebook.KeyPath

@[simp] theorem segments_child (p : KeyPath) (segment : Segment) :
    (p.child segment).segments = p.segments ++ [segment] := rfl

@[simp] theorem depth_child (p : KeyPath) (segment : Segment) :
    (p.child segment).depth = p.depth + 1 :=
  List.length_append

theorem child_ne_root (p : KeyPath) (segment : Segment) : p.child segment ≠ .root := by
  intro h
  have hsegments := congrArg segments h
  simp [root] at hsegments

theorem ext {p q : KeyPath} (h : p.segments = q.segments) : p = q := by
  cases p
  cases q
  cases h
  rfl

/-- A path that is not the root is one step longer than its parent. -/
theorem exists_eq_child {p : KeyPath} (h : p ≠ .root) :
    ∃ segment, p.segments.getLast? = some segment ∧ p = p.parent.child segment := by
  obtain ⟨segments⟩ := p
  induction segments using List.reverseRecOn with
  | nil => exact absurd rfl h
  | append_singleton segments segment ih =>
    refine ⟨segment, List.getLast?_concat, ext ?_⟩
    simp [parent]

/-- **The ancestors of a path** are the paths that it begins with, but for the root and itself. -/
theorem mem_ancestors {p q : KeyPath} :
    p ∈ q.ancestors ↔ p ≠ .root ∧ p.segments <+: q.segments ∧ p ≠ q := by
  unfold ancestors depth
  rw [List.mem_map]
  constructor
  · rintro ⟨n, hn, rfl⟩
    rw [List.mem_range] at hn
    have hlength : (q.segments.take (n + 1)).length = n + 1 := by
      rw [List.length_take]
      omega
    refine ⟨?_, List.take_prefix _ _, ?_⟩
    · intro h
      have hzero : (q.segments.take (n + 1)).length = 0 :=
        congrArg (fun p : KeyPath => p.segments.length) h
      omega
    · intro h
      have hsame : (q.segments.take (n + 1)).length = q.segments.length :=
        congrArg (fun p : KeyPath => p.segments.length) h
      omega
  · rintro ⟨hroot, hbegins, hne⟩
    have hpos : 0 < p.segments.length := by
      rw [List.length_pos_iff]
      exact fun h => hroot (ext h)
    have hle := hbegins.length_le
    have hlt : p.segments.length < q.segments.length := by
      rcases Nat.lt_or_ge p.segments.length q.segments.length with h | h
      · exact h
      · exact absurd (ext (hbegins.eq_of_length_le h)) hne
    refine ⟨p.segments.length - 1, ?_, ext ?_⟩
    · rw [List.mem_range]
      omega
    · rw [Nat.sub_add_cancel hpos]
      exact (List.prefix_iff_eq_take.mp hbegins).symm

theorem exists_append_of_mem_ancestors {p q : KeyPath} (h : p ∈ q.ancestors) :
    ∃ segment rest, q.segments = p.segments ++ segment :: rest := by
  obtain ⟨-, ⟨rest, hrest⟩, hne⟩ := mem_ancestors.mp h
  cases rest with
  | nil =>
    rw [List.append_nil] at hrest
    exact absurd (ext hrest) hne
  | cons segment rest => exact ⟨segment, rest, hrest.symm⟩

theorem not_mem_ancestors_self (p : KeyPath) : p ∉ p.ancestors := by
  intro h
  exact (mem_ancestors.mp h).2.2 rfl

/-- The paths that a walk meets from a path on along some steps. -/
def beginnings (done : List Segment) : List Segment → List KeyPath
  | [] => []
  | segment :: rest => ⟨done ++ [segment]⟩ :: beginnings (done ++ [segment]) rest

theorem beginnings_eq_map (done rest : List Segment) :
    beginnings done rest = (List.range rest.length).map fun n => ⟨done ++ rest.take (n + 1)⟩ := by
  induction rest generalizing done with
  | nil => rfl
  | cons segment rest ih =>
    rw [beginnings, ih, List.length_cons, List.range_succ_eq_map, List.map_cons, List.map_map]
    congr 1
    refine List.map_congr_left fun n _ => ext ?_
    simp

theorem ancestors_eq_beginnings (p : KeyPath) : p.ancestors = beginnings [] p.parent.segments := by
  rw [beginnings_eq_map]
  unfold ancestors parent depth
  rw [List.length_dropLast]
  refine List.map_congr_left fun n hn => ext ?_
  rw [List.mem_range] at hn
  rw [List.nil_append, List.dropLast_eq_take, List.take_take, Nat.min_eq_left (by omega)]

end Phrasebook.KeyPath
