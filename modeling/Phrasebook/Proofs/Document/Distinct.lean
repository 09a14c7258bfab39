import Mathlib.Data.List.Nodup
import Mathlib.Tactic.SplitIfs
import Phrasebook.Document.Basic
import Phrasebook.Document.Visit

/-! # Mappings with distinct keys

In a tree that was decoded from JSON the keys of every mapping are texts, and each text is the key of
one entry only (`Datum.Keyed`, `Document.keyed_decode`). So no two keys of a mapping have the same
text (`Datum.Distinct`, `Document.distinct_decode`). -/

namespace Phrasebook

namespace Datum

variable {α : Type}

/-- **The keys of each mapping in a tree have different texts.** -/
inductive Distinct : Datum α → Prop where
  | scalar {tree : Datum α} (h : tree.isContainer = false) : Distinct tree
  | list {items : List (Datum α)} (h : ∀ item ∈ items, Distinct item) : Distinct (.list items)
  | map {entries : List (DatumKey × Datum α)}
      (hkeys : (entries.map fun entry => entry.1.toText).Nodup)
      (h : ∀ entry ∈ entries, Distinct entry.2) : Distinct (.map entries)

theorem Distinct.of_list {items : List (Datum α)} (h : Distinct (.list items)) :
    ∀ item ∈ items, item.Distinct := by
  cases h with
  | scalar h => cases h
  | list h => exact h

theorem Distinct.of_map {entries : List (DatumKey × Datum α)} (h : Distinct (.map entries)) :
    (entries.map fun entry => entry.1.toText).Nodup ∧ ∀ entry ∈ entries, entry.2.Distinct := by
  cases h with
  | scalar h => cases h
  | map hkeys h => exact ⟨hkeys, h⟩

/-! ### Entries under texts -/

/-- **The keys of each mapping in a tree are different texts.** -/
inductive Keyed : Datum α → Prop where
  | scalar {tree : Datum α} (h : tree.isContainer = false) : Keyed tree
  | list {items : List (Datum α)} (h : ∀ item ∈ items, Keyed item) : Keyed (.list items)
  | map {entries : List (DatumKey × Datum α)}
      (hkeys : ∃ names : List Text, names.Nodup ∧ entries.map (·.1) = names.map .text)
      (h : ∀ entry ∈ entries, Keyed entry.2) : Keyed (.map entries)

theorem Keyed.of_list {items : List (Datum α)} (h : Keyed (.list items)) :
    ∀ item ∈ items, item.Keyed := by
  cases h with
  | scalar h => cases h
  | list h => exact h

/-- The entries of a mapping stand under different texts, and their values are keyed. -/
structure KeyedEntries (entries : List (DatumKey × Datum α)) : Prop where
  keys : ∃ names : List Text, names.Nodup ∧ entries.map (·.1) = names.map .text
  value : ∀ entry ∈ entries, entry.2.Keyed

theorem Keyed.of_map {entries : List (DatumKey × Datum α)} (h : Keyed (.map entries)) :
    KeyedEntries entries := by
  cases h with
  | scalar h => cases h
  | map hkeys h => exact ⟨hkeys, h⟩

theorem keyedEntries_nil : KeyedEntries ([] : List (DatumKey × Datum α)) :=
  ⟨⟨[], List.nodup_nil, rfl⟩, List.forall_mem_nil _⟩

theorem KeyedEntries.keyed {entries : List (DatumKey × Datum α)} (h : KeyedEntries entries) :
    Keyed (.map entries) :=
  .map h.keys h.value

theorem Keyed.distinct {tree : Datum α} (h : tree.Keyed) : tree.Distinct := by
  induction h with
  | scalar h => exact .scalar h
  | list h ih => exact .list ih
  | @map entries hkeys h ih =>
    obtain ⟨names, hnodup, hkeys⟩ := hkeys
    have htexts : (entries.map fun entry => entry.1.toText) = names := by
      have hmap := congrArg (List.map DatumKey.toText) hkeys
      rw [List.map_map, List.map_map] at hmap
      exact hmap.trans (List.map_id names)
    exact .map (htexts ▸ hnodup) ih

/-- A text that is put is a key once, in its place or at the end. -/
theorem keys_putEntry (name : Text) (value : Datum α) {entries : List (DatumKey × Datum α)}
    {names : List Text} (h : entries.map (·.1) = names.map .text) :
    (putEntry (.text name) value entries).map (·.1) =
      (if name ∈ names then names else names ++ [name]).map .text := by
  induction entries generalizing names with
  | nil =>
    obtain rfl := List.map_eq_nil_iff.mp h.symm
    rfl
  | cons entry rest ih =>
    obtain ⟨k, v⟩ := entry
    cases names with
    | nil => cases h
    | cons first names =>
      obtain ⟨rfl, hrest⟩ := List.cons.inj h
      have hsame : (DatumKey.text first).same (.text name) = decide (first = name) := by
        by_cases hname : first = name <;> simp [DatumKey.same, DatumKey.number?, hname]
      rw [putEntry, hsame]
      by_cases hname : first = name
      · simp [hname, hrest]
      · have hmem : name ∈ first :: names ↔ name ∈ names := by simp [Ne.symm hname]
        simp only [hname, decide_false, Bool.false_eq_true, if_false, List.map_cons, ih hrest, hmem]
        split <;> rfl

/-- The values after one was put are this one and old ones. -/
theorem mem_putEntry {key : DatumKey} {value : Datum α} {entries : List (DatumKey × Datum α)}
    {entry : DatumKey × Datum α} (h : entry ∈ putEntry key value entries) :
    entry.2 = value ∨ entry ∈ entries := by
  induction entries with
  | nil =>
    obtain rfl := List.mem_singleton.mp h
    exact .inl rfl
  | cons first rest ih =>
    rw [putEntry] at h
    split at h
    · rcases List.mem_cons.mp h with rfl | h
      · exact .inl rfl
      · exact .inr (List.mem_cons_of_mem _ h)
    · rcases List.mem_cons.mp h with rfl | h
      · exact .inr List.mem_cons_self
      · exact (ih h).imp_right (List.mem_cons_of_mem _)

theorem KeyedEntries.putEntry {entries : List (DatumKey × Datum α)}
    (h : KeyedEntries entries) (name : Text) {value : Datum α} (hvalue : value.Keyed) :
    KeyedEntries (putEntry (.text name) value entries) := by
  obtain ⟨names, hnodup, hkeys⟩ := h.keys
  refine ⟨⟨_, ?_, keys_putEntry name value hkeys⟩, fun entry hentry => ?_⟩
  · split
    · exact hnodup
    next hnew =>
      refine List.nodup_append.mpr ⟨hnodup, List.pairwise_singleton _ _, ?_⟩
      intro other hother last hlast
      rw [List.mem_singleton.mp hlast]
      rintro rfl
      exact hnew hother
  · rcases mem_putEntry hentry with hnew | hold
    · rw [hnew]
      exact hvalue
    · exact h.value entry hold

end Datum

/-! ### Decoding -/

namespace Json

open Datum (KeyedEntries keyedEntries_nil)

variable {α : Type}

/-- What has been read of an open container is keyed. -/
def Frame.Keyed : Frame α → Prop
  | .array items => ∀ item ∈ items, item.Keyed
  | .object entries _ => KeyedEntries entries

/-- What has been read is keyed. -/
def State.Keyed : State α → Prop
  | .value stack | .firstItem stack | .firstName stack => ∀ frame ∈ stack, frame.Keyed
  | .item _ items stack | .afterItem items stack =>
    (∀ item ∈ items, item.Keyed) ∧ ∀ frame ∈ stack, frame.Keyed
  | .name _ entries stack | .colon entries _ stack | .afterMember entries stack =>
    KeyedEntries entries ∧ ∀ frame ∈ stack, frame.Keyed
  | .done tree => tree.Keyed

section Step
variable {stack : List (Frame α)} (hstack : ∀ frame ∈ stack, frame.Keyed) {t : PlacedToken}
  {s' : State α}
include hstack

theorem keyed_close {value : Datum α} (h : value.Keyed) : (close value stack).Keyed := by
  cases stack with
  | nil => exact h
  | cons frame stack =>
    obtain ⟨hframe, hrest⟩ := List.forall_mem_cons.mp hstack
    cases frame with
    | array items => exact ⟨List.forall_mem_cons.mpr ⟨h, hframe⟩, hrest⟩
    | object entries name => exact ⟨KeyedEntries.putEntry hframe name h, hrest⟩

theorem keyed_beginValue (h : beginValue stack t = .ok s') : s'.Keyed := by
  unfold beginValue at h
  split at h
  all_goals cases h
  · exact hstack
  · exact hstack
  all_goals exact keyed_close hstack (.scalar rfl)

theorem keyed_beginName {entries : List (DatumKey × Datum α)} (hentries : KeyedEntries entries)
    (h : beginName entries stack t = .ok s') : s'.Keyed := by
  unfold beginName at h
  split at h
  all_goals cases h
  exact ⟨hentries, hstack⟩

end Step

/-- **What has been read stays keyed** with each token. -/
theorem keyed_step {s s' : State α} {t : PlacedToken} (hs : s.Keyed)
    (h : step s t = .ok s') : s'.Keyed := by
  cases s with
  | value stack => exact keyed_beginValue hs h
  | firstItem stack =>
    rw [step] at h
    split at h
    · cases h
      exact keyed_close hs (.list (List.forall_mem_nil _))
    · have hnew : (Frame.array ([] : List (Datum α))).Keyed := List.forall_mem_nil _
      exact keyed_beginValue (List.forall_mem_cons.mpr ⟨hnew, hs⟩) h
  | item comma items stack =>
    rw [step] at h
    split_ifs at h
    have hframe : (Frame.array items).Keyed := hs.1
    exact keyed_beginValue (List.forall_mem_cons.mpr ⟨hframe, hs.2⟩) h
  | afterItem items stack =>
    obtain ⟨hitems, hstack⟩ := hs
    rw [step] at h
    split_ifs at h
    · cases h
      exact ⟨hitems, hstack⟩
    · cases h
      exact keyed_close hstack (.list fun item hitem => hitems item (List.mem_reverse.mp hitem))
  | firstName stack =>
    rw [step] at h
    split at h
    · cases h
      exact keyed_close hs keyedEntries_nil.keyed
    · exact keyed_beginName hs keyedEntries_nil h
  | name comma entries stack =>
    rw [step] at h
    split_ifs at h
    exact keyed_beginName hs.2 hs.1 h
  | colon entries name stack =>
    rw [step] at h
    split_ifs at h
    cases h
    exact List.forall_mem_cons.mpr ⟨hs.1, hs.2⟩
  | afterMember entries stack =>
    rw [step] at h
    split_ifs at h
    · cases h
      exact hs
    · cases h
      exact keyed_close hs.2 hs.1.keyed
  | done value =>
    rw [step] at h
    split_ifs at h
    cases h
    exact hs

theorem keyed_run {s s' : State α} {placed : List PlacedToken} (hs : s.Keyed)
    (h : run s placed = .ok s') : s'.Keyed := by
  induction placed generalizing s with
  | nil =>
    cases h
    exact hs
  | cons t rest ih =>
    rw [run] at h
    split at h
    next next hstep => exact ih (keyed_step hs hstep) h
    · cases h

theorem keyed_decode {t : Text} {tree : Datum α} (h : decode t = .ok tree) : tree.Keyed := by
  have hstart : (State.value ([] : List (Frame α))).Keyed := List.forall_mem_nil _
  unfold decode at h
  split_ifs at h
  split at h
  next hrun =>
    cases h
    exact keyed_run hstart hrun
  · cases h
  · cases h

end Json

/-- **The mappings of a decoded document have texts as keys**, each once. -/
theorem Document.keyed_decode {α : Type} {text source : Text} {tree : Datum α}
    (h : Document.decode text source = .ok tree) : tree.Keyed := by
  unfold Document.decode at h
  cases hdecode : Json.decode (α := α) (Comments.blank text) with
  | ok found =>
    simp only [hdecode, Except.ok.injEq] at h
    subst h
    exact Json.keyed_decode hdecode
  | error fault =>
    cases fault <;> simp [hdecode] at h

/-- The mappings of a decoded document have keys with different texts. -/
theorem Document.distinct_decode {α : Type} {text source : Text} {tree : Datum α}
    (h : Document.decode text source = .ok tree) : tree.Distinct :=
  (Document.keyed_decode h).distinct

end Phrasebook
