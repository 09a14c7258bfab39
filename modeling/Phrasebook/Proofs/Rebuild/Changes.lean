import Mathlib.Data.Finset.Dedup
import Mathlib.Data.Finset.Erase
import Mathlib.Data.Finset.Insert
import Phrasebook.Proofs.Disk.Machine
import Phrasebook.Proofs.OrderedMap
import Phrasebook.Rebuild.Poller

/-! # The changes of a watched directory

The changes from one snapshot to another are one for each path at which the snapshots differ, in the
order of the paths, and they lead from the paths of the one to the paths of the other
(`Snapshot.isDelta_diff`). They are replayed one after the other (`FileChange.replay?`); a file is
added only where there was none, and removed only where there was one.

A poller keeps the snapshot in which its last changes end, so the changes of any number of polls
lead from the first snapshot to the last one (`Poller.delta_and_replay`). -/

namespace Phrasebook

open Machine (Leads)

/-- No path comes before itself. -/
theorem DiskPath.lt_irrefl (p : DiskPath) : ¬ p < p := by
  rw [lt_iff]
  rintro (hlt | ⟨-, hlt | ⟨-, hlt⟩⟩)
  · exact List.lt_irrefl _ hlt
  · exact Nat.lt_irrefl _ hlt
  · exact List.lt_irrefl _ hlt

/-! ### Replaying changes -/

namespace FileChange

/-- The paths of the files after a change. A file that was added was not there before, and one that
was removed or changed was. -/
def after? (paths : Finset DiskPath) (change : FileChange) : Option (Finset DiskPath) :=
  match change.kind with
  | .added => if change.path ∈ paths then none else some (insert change.path paths)
  | .removed => if change.path ∈ paths then some (paths.erase change.path) else none
  | .changed => if change.path ∈ paths then some paths else none

/-- **The paths of the files after some changes**, one after the other. -/
def replay? (paths : Finset DiskPath) (changes : List FileChange) : Option (Finset DiskPath) :=
  changes.foldlM after? paths

/-- A change can be one of the files at some paths. -/
def Fits (paths : Finset DiskPath) (change : FileChange) : Prop :=
  change.path ∈ paths ↔ change.kind ≠ .added

section Replay
variable {paths : Finset DiskPath} {change : FileChange}

/-- A change that fits is applied, and nothing happens to the other paths. -/
theorem exists_after? (h : change.Fits paths) : ∃ after, after? paths change = some after ∧
    (change.path ∈ after ↔ change.kind ≠ .removed) ∧
      ∀ q, q ≠ change.path → (q ∈ after ↔ q ∈ paths) := by
  obtain ⟨kind, path⟩ := change
  unfold Fits at h
  cases kind with
  | added =>
    have hnew : path ∉ paths := fun hmem => h.mp hmem rfl
    refine ⟨insert path paths, if_neg hnew, ?_, fun q hq => ?_⟩
    · simp
    · simp only [Finset.mem_insert, hq, false_or]
  | removed =>
    have hold : path ∈ paths := h.mpr nofun
    refine ⟨paths.erase path, if_pos hold, ?_, fun q hq => ?_⟩
    · simp
    · simp only [Finset.mem_erase, hq, ne_eq, not_false_eq_true, true_and]
  | changed =>
    have hold : path ∈ paths := h.mpr nofun
    refine ⟨paths, if_pos hold, ?_, fun q _ => Iff.rfl⟩
    simp [hold]

theorem replay?_cons {after : Finset DiskPath} (h : after? paths change = some after)
    (rest : List FileChange) : replay? paths (change :: rest) = replay? after rest := by
  unfold replay?
  rw [List.foldlM_cons, h]
  rfl

theorem replay?_append (changes rest : List FileChange) :
    replay? paths (changes ++ rest) = (replay? paths changes).bind (replay? · rest) :=
  List.foldlM_append

/-- **Changes at different paths are replayed**, if each fits before the first of them. -/
theorem exists_replay? {changes : List FileChange} (hnodup : (changes.map (·.path)).Nodup)
    (hfits : ∀ change ∈ changes, change.Fits paths) :
    ∃ after, replay? paths changes = some after ∧
      (∀ change ∈ changes, change.path ∈ after ↔ change.kind ≠ .removed) ∧
        ∀ q, q ∉ changes.map (·.path) → (q ∈ after ↔ q ∈ paths) := by
  induction changes generalizing paths with
  | nil => exact ⟨paths, rfl, List.forall_mem_nil _, fun _ _ => Iff.rfl⟩
  | cons first rest ih =>
    rw [List.map_cons] at hnodup
    obtain ⟨hfirst, hrest⟩ := List.nodup_cons.mp hnodup
    obtain ⟨hfitsFirst, hfitsRest⟩ := List.forall_mem_cons.mp hfits
    obtain ⟨middle, happly, hthere, hothers⟩ := exists_after? hfitsFirst
    -- The later changes are at other paths, where the first one has changed nothing.
    have hfitsMiddle : ∀ change ∈ rest, change.Fits middle := by
      intro change hchange
      have hne : change.path ≠ first.path := by
        intro heq
        exact hfirst (heq ▸ List.mem_map_of_mem hchange)
      have hsame := hothers change.path hne
      exact hsame.trans (hfitsRest change hchange)
    obtain ⟨after, hreplay, hchanged, hkept⟩ := ih hrest hfitsMiddle
    refine ⟨after, (replay?_cons happly rest).trans hreplay, ?_, ?_⟩
    · refine List.forall_mem_cons.mpr ⟨?_, hchanged⟩
      exact (hkept first.path hfirst).trans hthere
    · intro q hq
      rw [List.map_cons, List.mem_cons, not_or] at hq
      exact (hkept q hq.2).trans (hothers q hq.1)

end Replay

end FileChange

/-! ### The changes between two snapshots -/

namespace Snapshot

/-- The paths of the files of a snapshot. -/
def paths (s : Snapshot) : Finset DiskPath := s.keys.toFinset

/-- **A file has changed** from one snapshot to another: it is in one of them only, or it is in both
with different stamps. -/
inductive HasChanged (old new : Snapshot) : FileChange → Prop where
  | removed {path : DiskPath} {before : Stamp} (hold : old.get? path = some before)
      (hnew : new.get? path = none) : HasChanged old new ⟨.removed, path⟩
  | added {path : DiskPath} {after : Stamp} (hold : old.get? path = none)
      (hnew : new.get? path = some after) : HasChanged old new ⟨.added, path⟩
  | changed {path : DiskPath} {before after : Stamp} (hold : old.get? path = some before)
      (hnew : new.get? path = some after) (hne : before ≠ after) :
      HasChanged old new ⟨.changed, path⟩

/-- **Changes lead from one snapshot to another**, without any that is missing or superfluous. -/
structure IsDelta (old new : Snapshot) (changes : List FileChange) : Prop where
  increasing : changes.Pairwise fun a b => a.path < b.path
  mem : ∀ change, change ∈ changes ↔ HasChanged old new change
  /-- There is one change of each path at which the snapshots differ, and none of any other path. -/
  count : ∀ path, changes.countP (fun change => change.path = path) =
    if old.get? path = new.get? path then 0 else 1
  /-- There is no change between equal snapshots only. -/
  nil : changes = [] ↔ ∀ path, old.get? path = new.get? path
  replay : FileChange.replay? old.paths changes = some new.paths

variable {old new : Snapshot}

theorem mem_paths {s : Snapshot} {path : DiskPath} : path ∈ s.paths ↔ s.get? path ≠ none := by
  unfold paths
  rw [List.mem_toFinset, ne_eq, OrderedMap.get?_eq_none, not_not]

theorem changeAt?_eq_some {path : DiskPath} {change : FileChange} :
    changeAt? old new path = some change ↔ HasChanged old new change ∧ change.path = path := by
  unfold changeAt?
  constructor
  · intro h
    split at h
    · cases h
    next hold hnew =>
      cases h
      exact ⟨.removed hold hnew, rfl⟩
    next hold hnew =>
      cases h
      exact ⟨.added hold hnew, rfl⟩
    next before after hold hnew =>
      by_cases hsame : before = after
      · rw [if_pos hsame] at h
        cases h
      · rw [if_neg hsame] at h
        cases h
        exact ⟨.changed hold hnew hsame, rfl⟩
  · rintro ⟨hchanged, rfl⟩
    cases hchanged with
    | removed hold hnew => simp only [hold, hnew]
    | added hold hnew => simp only [hold, hnew]
    | changed hold hnew hne => simp only [hold, hnew, if_neg hne]

theorem changeAt?_eq_none {path : DiskPath} :
    changeAt? old new path = none ↔ old.get? path = new.get? path := by
  unfold changeAt?
  cases old.get? path <;> cases new.get? path <;> simp

namespace HasChanged
variable {change : FileChange} (h : HasChanged old new change)
include h

theorem get?_ne : old.get? change.path ≠ new.get? change.path := by
  have hsome := changeAt?_eq_some.mpr ⟨h, rfl⟩
  intro heq
  rw [changeAt?_eq_none.mpr heq] at hsome
  cases hsome

theorem fits : change.Fits old.paths := by
  unfold FileChange.Fits
  rw [mem_paths]
  cases h with
  | removed hold _ => simp [hold]
  | added hold _ => simp [hold]
  | changed hold _ _ => simp [hold]

theorem mem_paths_iff : change.path ∈ new.paths ↔ change.kind ≠ .removed := by
  rw [mem_paths]
  cases h with
  | removed _ hnew => simp [hnew]
  | added _ hnew => simp [hnew]
  | changed _ hnew _ => simp [hnew]

end HasChanged

/-- **The changes are those of the files that have changed.** -/
theorem mem_diff {change : FileChange} : change ∈ old.diff new ↔ HasChanged old new change := by
  unfold diff
  simp only [List.mem_filterMap, changeAt?_eq_some, Sorted.mem_ofList, List.mem_append]
  constructor
  · rintro ⟨path, -, hchanged, -⟩
    exact hchanged
  · intro hchanged
    refine ⟨change.path, ?_, hchanged, rfl⟩
    cases hchanged with
    | removed hold _ => exact .inl (OrderedMap.mem_keys_iff.mpr ⟨_, hold⟩)
    | added _ hnew => exact .inr (OrderedMap.mem_keys_iff.mpr ⟨_, hnew⟩)
    | changed hold _ _ => exact .inl (OrderedMap.mem_keys_iff.mpr ⟨_, hold⟩)

theorem pairwise_diff (old new : Snapshot) :
    (old.diff new).Pairwise fun a b => a.path < b.path := by
  unfold diff
  refine (Sorted.pairwise_ofList _).filterMap _ fun p q hlt a ha b hb => ?_
  obtain ⟨-, hp⟩ := changeAt?_eq_some.mp ha
  obtain ⟨-, hq⟩ := changeAt?_eq_some.mp hb
  rwa [hp, hq]

theorem nodup_paths_diff (old new : Snapshot) : ((old.diff new).map (·.path)).Nodup := by
  refine List.pairwise_map.mpr ((pairwise_diff old new).imp fun hlt heq => ?_)
  exact DiskPath.lt_irrefl _ (heq ▸ hlt)

/-- **The paths of the changes** are those at which the snapshots differ. -/
theorem mem_paths_diff {path : DiskPath} :
    path ∈ (old.diff new).map (·.path) ↔ old.get? path ≠ new.get? path := by
  rw [List.mem_map]
  constructor
  · rintro ⟨change, hchange, rfl⟩
    exact (mem_diff.mp hchange).get?_ne
  · intro hne
    cases hchange : changeAt? old new path with
    | none => exact absurd (changeAt?_eq_none.mp hchange) hne
    | some change =>
      obtain ⟨hchanged, hpath⟩ := changeAt?_eq_some.mp hchange
      exact ⟨change, mem_diff.mpr hchanged, hpath⟩

theorem countP_diff (old new : Snapshot) (path : DiskPath) :
    (old.diff new).countP (fun change => change.path = path) =
      if old.get? path = new.get? path then 0 else 1 := by
  have hcount : (old.diff new).countP (fun change => change.path = path) =
      ((old.diff new).map (·.path)).count path := by
    unfold List.count
    rw [List.countP_map]
    rfl
  rw [hcount, (nodup_paths_diff old new).count]
  by_cases hsame : old.get? path = new.get? path
  · have hnone : path ∉ (old.diff new).map (·.path) := fun hmem => mem_paths_diff.mp hmem hsame
    rw [if_neg hnone, if_pos hsame]
  · rw [if_pos (mem_paths_diff.mpr hsame), if_neg hsame]

theorem diff_eq_nil_iff : old.diff new = [] ↔ ∀ path, old.get? path = new.get? path := by
  have hpaths : old.diff new = [] ↔ ∀ path, path ∉ (old.diff new).map (·.path) := by
    rw [← List.eq_nil_iff_forall_not_mem, List.map_eq_nil_iff]
  rw [hpaths]
  simp only [mem_paths_diff, ne_eq, not_not]

/-- **The changes lead from the paths of the one snapshot to those of the other.** -/
theorem replay?_diff (old new : Snapshot) :
    FileChange.replay? old.paths (old.diff new) = some new.paths := by
  have hfits : ∀ change ∈ old.diff new, change.Fits old.paths :=
    fun change hchange => (mem_diff.mp hchange).fits
  obtain ⟨after, hreplay, hchanged, hkept⟩ :=
    FileChange.exists_replay? (nodup_paths_diff old new) hfits
  have hafter : after = new.paths := by
    ext q
    by_cases hq : q ∈ (old.diff new).map (·.path)
    · obtain ⟨change, hchange, rfl⟩ := List.mem_map.mp hq
      exact (hchanged change hchange).trans (mem_diff.mp hchange).mem_paths_iff.symm
    · have hsame : old.get? q = new.get? q := not_not.mp (mt mem_paths_diff.mpr hq)
      rw [hkept q hq, mem_paths, mem_paths, hsame]
  rw [hreplay, hafter]

theorem isDelta_diff (old new : Snapshot) : IsDelta old new (old.diff new) where
  increasing := pairwise_diff old new
  mem _ := mem_diff
  count := countP_diff old new
  nil := diff_eq_nil_iff
  replay := replay?_diff old new

end Snapshot

/-! ### Polls -/

namespace Poller

/-- What a directory holds on a machine, if it can be told. -/
def snapshotOn? (directory : DiskPath) (suffix : Text) (s : Machine) : Option Snapshot :=
  ((snapshot directory suffix : ExceptT FileFault (StateM Machine) Snapshot).run.run s).run.1.toOption

/-- What a poll on a machine reports, and the poller after it. A poll that fails reports nothing and
leaves the poller as it is. -/
def pollOn (p : Poller) (s : Machine) : List FileChange × Poller :=
  match ((p.poll : ExceptT Crash (StateM Machine) (List FileChange × Poller)).run.run s).run.1 with
  | .ok outcome => outcome
  | .error _ => ([], p)

/-- **What polls report**, each on the machine that it finds, and the poller after them. -/
def pollsOn (p : Poller) : List Machine → List FileChange × Poller
  | [] => ([], p)
  | s :: rest =>
    let (changes, next) := p.pollOn s
    let (others, last) := next.pollsOn rest
    (changes ++ others, last)

/-- **The last snapshot** that the directory gives on some machines, or the one that the poller has.
-/
def lastSnapshot (p : Poller) (machines : List Machine) : Snapshot :=
  ((machines.filterMap (snapshotOn? p.directory p.suffix)).getLast?).getD p.latest

variable {p : Poller} {s : Machine}

/-- A poll takes a snapshot, reports the changes up to it and keeps it. -/
theorem pollOn_of_some {latest : Snapshot}
    (h : snapshotOn? p.directory p.suffix s = some latest) :
    p.pollOn s = (p.latest.diff latest, { p with latest }) := by
  obtain ⟨r, t, hleads⟩ := Machine.exists_leads
    (snapshot p.directory p.suffix : ExceptT FileFault (StateM Machine) Snapshot) s
  unfold snapshotOn? at h
  rw [hleads] at h
  cases r with
  | error fault => cases h
  | ok found =>
    obtain rfl : found = latest := Option.some.inj h
    have hpoll : Leads p.poll s (.ok (p.latest.diff found, { p with latest := found })) t :=
      Machine.leads_bind_ok.mpr ⟨found, t, Machine.leads_adapt_ok.mpr hleads,
        Machine.leads_pure.mpr ⟨rfl, rfl⟩⟩
    unfold pollOn
    rw [hpoll]

/-- A poll without a snapshot fails. -/
theorem pollOn_of_none (h : snapshotOn? p.directory p.suffix s = none) : p.pollOn s = ([], p) := by
  obtain ⟨r, t, hleads⟩ := Machine.exists_leads
    (snapshot p.directory p.suffix : ExceptT FileFault (StateM Machine) Snapshot) s
  unfold snapshotOn? at h
  rw [hleads] at h
  cases r with
  | ok found => cases h
  | error fault =>
    have hpoll : Leads p.poll s (.error (crash p.directory fault)) t :=
      Machine.leads_bind_error.mpr (.inl (Machine.leads_adapt_error.mpr ⟨fault, rfl, hleads⟩))
    unfold pollOn
    rw [hpoll]

theorem lastSnapshot_cons_of_some {latest : Snapshot} (rest : List Machine)
    (h : snapshotOn? p.directory p.suffix s = some latest) :
    p.lastSnapshot (s :: rest) = lastSnapshot { p with latest } rest := by
  unfold lastSnapshot
  rw [List.filterMap_cons_some h, List.getLast?_cons, Option.getD_some]

theorem lastSnapshot_cons_of_none (rest : List Machine)
    (h : snapshotOn? p.directory p.suffix s = none) :
    p.lastSnapshot (s :: rest) = p.lastSnapshot rest := by
  unfold lastSnapshot
  rw [List.filterMap_cons_none h]

/-- **The changes of any number of polls** lead from the snapshot of the poller to the last one. -/
theorem replay?_pollsOn (p : Poller) (machines : List Machine) :
    FileChange.replay? p.latest.paths (p.pollsOn machines).1 =
      some (p.lastSnapshot machines).paths := by
  induction machines generalizing p with
  | nil => rfl
  | cons s rest ih =>
    rw [pollsOn]
    cases hs : snapshotOn? p.directory p.suffix s with
    | none =>
      rw [pollOn_of_none hs, lastSnapshot_cons_of_none rest hs]
      exact ih p
    | some latest =>
      rw [pollOn_of_some hs, lastSnapshot_cons_of_some rest hs]
      have hnext := ih { p with latest }
      have hdiff := Snapshot.replay?_diff p.latest latest
      rw [FileChange.replay?_append, hdiff, Option.bind_some]
      exact hnext

/-- **Changes are exact, and polls lose none.** The changes between two snapshots are one for each
path at which they differ, in the order of the paths, and lead from the paths of the one to those of
the other. The changes of any number of polls of a directory, whatever becomes of it in between,
lead from the paths of the first snapshot to those of the last one; so a file is never added where
there is one, nor removed where there is none. -/
theorem delta_and_replay : (∀ old new : Snapshot, Snapshot.IsDelta old new (old.diff new)) ∧
    ∀ (p : Poller) (machines : List Machine),
      FileChange.replay? p.latest.paths (p.pollsOn machines).1 =
        some (p.lastSnapshot machines).paths :=
  ⟨Snapshot.isDelta_diff, replay?_pollsOn⟩

end Poller

end Phrasebook
