import Phrasebook.Proofs.Disk.Artifact
import Phrasebook.Proofs.Text.Utf8

/-! # Texts on a disk

A disk stores a text at a path if the file there is read as the text (`Disk.Stores`). The write of an
artifact stores its text, if that has no carriage returns (`Artifact.stores_of_leads_write`), and it
changes no other file (`Artifact.changesAt_of_leads_write`). A text that is stored already is not
written again (`Disk.Stores.leads_write`). -/

namespace Phrasebook

open Machine (Leads)

namespace Disk

variable {d e : Disk} {path other : DiskPath} {text : Text}

/-! ### Reading -/

/-- **A file is read** at the place that the path leads to. -/
theorem read_eq_ok {bytes : Bytes} : d.read path = .ok bytes ↔
    ∃ place, d.locate path = .ok place ∧ d.file? place = some bytes := by
  unfold read find? file?
  cases d.locate path with
  | error fault => simp
  | ok place =>
    cases hnode : d.node? place with
    | none => simp [hnode]
    | some node => cases node <;> simp [hnode]

theorem isFile_iff : d.isFile path = true ↔ ∃ bytes, d.read path = .ok bytes := by
  unfold isFile read
  cases d.find? path with
  | error fault => simp
  | ok node => cases node <;> simp

/-- **A directory is listed** with the names of what lies directly in it. -/
theorem list_eq_ok {names : List Text} : d.list path = .ok names ↔
    ∃ place, d.locate path = .ok place ∧ d.node? place = some .directory ∧
      d.nodes.filterMap (fun entry => nameIn? place entry.1) = names := by
  unfold list
  cases d.locate path with
  | error fault => simp
  | ok place =>
    cases hnode : d.node? place with
    | none => simp [hnode]
    | some node => cases node <;> simp [hnode]

/-- **A disk stores a text** at a path: the file there is read as the text. -/
def Stores (d : Disk) (path : DiskPath) (text : Text) : Prop :=
  ∃ bytes t, d.read path = .ok bytes ∧ Utf8.decode bytes = .ok t ∧ t.unifyLineBreaks = text

/-! ### Changes at one path -/

/-- **At most the file at a path is changed**: every directory stays, and so does every other
file. -/
structure ChangesAt (path : DiskPath) (d e : Disk) : Prop where
  directoriesStay : d.DirectoriesStay e
  elsewhere : ∀ q, e.locate path ≠ .ok q → e.file? q = d.file? q

theorem Stores.changesAt (h : d.Stores path text) (hchanges : d.ChangesAt other e)
    (hne : e.locate path ≠ e.locate other) : e.Stores path text := by
  obtain ⟨bytes, t, hread, hdecode, htext⟩ := h
  obtain ⟨place, hplace, hfile⟩ := read_eq_ok.mp hread
  have hplace' := hchanges.directoriesStay.locate hplace
  refine ⟨bytes, t, read_eq_ok.mpr ⟨place, hplace', ?_⟩, hdecode, htext⟩
  rw [hchanges.elsewhere place fun hother => hne (hplace'.trans hother.symm)]
  exact hfile

/-! ### Attempts on a disk that stores a text -/

section Machine
variable {s : Machine} {bytes : Bytes}

theorem leads_isFile (path : DiskPath) (hplan : s.plan = []) :
    Leads (Artifact.worded (Host.isFile path)) s (.ok (s.disk.isFile path)) s :=
  Machine.leads_adapt_ok.mpr (Machine.leads_ask_of_eq_ok rfl hplan)

theorem leads_readBytes (hread : s.disk.read path = .ok bytes) (hplan : s.plan = []) :
    Leads (Artifact.worded (Host.readBytes path)) s (.ok bytes) s :=
  Machine.leads_adapt_ok.mpr (Machine.leads_ask_of_eq_ok hread hplan)

theorem leads_readText_of_decode {t : Text} (hread : s.disk.read path = .ok bytes)
    (hdecode : Utf8.decode bytes = .ok t) (hplan : s.plan = []) :
    Leads (Artifact.readText path) s (.ok t.unifyLineBreaks) s := by
  refine Machine.leads_bind_ok.mpr ⟨bytes, s, leads_readBytes hread hplan, ?_⟩
  simp only [hdecode]
  exact Machine.leads_pure.mpr ⟨rfl, rfl⟩

theorem leads_holds_of_decode {t : Text} (hread : s.disk.read path = .ok bytes)
    (hdecode : Utf8.decode bytes = .ok t) (hplan : s.plan = []) (text : Text) :
    Leads (Artifact.holds path text) s (.ok (decide (t.unifyLineBreaks = text))) s := by
  have hfile := leads_isFile path hplan
  rw [isFile_iff.mpr ⟨bytes, hread⟩] at hfile
  refine Machine.leads_bind_ok.mpr ⟨true, s, hfile, ?_⟩
  rw [if_pos rfl]
  refine Machine.leads_bind_ok.mpr ⟨_, s, leads_readText_of_decode hread hdecode hplan, ?_⟩
  exact Machine.leads_pure.mpr ⟨rfl, rfl⟩

variable (h : s.disk.Stores path text) (hplan : s.plan = [])
include h hplan

theorem Stores.leads_readText : Leads (Artifact.readText path) s (.ok text) s := by
  obtain ⟨bytes, t, hread, hdecode, rfl⟩ := h
  exact leads_readText_of_decode hread hdecode hplan

theorem Stores.leads_holds : Leads (Artifact.holds path text) s (.ok true) s := by
  obtain ⟨bytes, t, hread, hdecode, rfl⟩ := h
  have hholds := leads_holds_of_decode hread hdecode hplan t.unifyLineBreaks
  rwa [decide_eq_true rfl] at hholds

/-- **A text that is stored is not written again.** -/
theorem Stores.leads_write : Leads (Artifact.write path text) s (.ok false) s := by
  refine Machine.leads_adapt_ok.mpr (Machine.leads_bind_ok.mpr
    ⟨true, s, h.leads_holds hplan, ?_⟩)
  exact Machine.leads_pure.mpr ⟨rfl, rfl⟩

end Machine

end Disk

namespace Artifact

variable {s s' : Machine} {path : DiskPath} {text : Text}

theorem leads_readText_ok (h : Leads (readText path) s (.ok text) s') :
    s.disk.Stores path text := by
  obtain ⟨bytes, t, hbytes, hrest⟩ := Machine.leads_bind_ok.mp h
  have hread := (Machine.leads_ask_ok (Machine.leads_adapt_ok.mp hbytes)).1
  cases hdecode : Utf8.decode bytes with
  | error fault =>
    simp only [hdecode] at hrest
    cases (Machine.leads_throw.mp hrest).1
  | ok decoded =>
    simp only [hdecode] at hrest
    cases (Machine.leads_pure.mp hrest).1
    exact ⟨bytes, decoded, hread, hdecode, rfl⟩

theorem leads_holds_true (h : Leads (holds path text) s (.ok true) s') :
    s.disk.Stores path text := by
  obtain ⟨isFile, t, hfile, hrest⟩ := Machine.leads_bind_ok.mp h
  have hdisk := (Machine.leads_ask_ok (Machine.leads_adapt_ok.mp hfile)).2
  cases isFile with
  | false => cases (Machine.leads_pure.mp hrest).1
  | true =>
    obtain ⟨old, u, hold, hsame⟩ := Machine.leads_bind_ok.mp hrest
    have heq : old = text := of_decide_eq_true (Except.ok.inj (Machine.leads_pure.mp hsame).1).symm
    rw [← hdisk, ← heq]
    exact leads_readText_ok hold

variable {written : Bool} (h : Leads (write path text) s (.ok written) s')
include h

/-- **The write of an artifact stores its text**, if that has no carriage returns. -/
theorem stores_of_leads_write (hcr : CodePoint.cr ∉ text) : s'.disk.Stores path text := by
  obtain ⟨held, t, hholds, hrest⟩ := Machine.leads_bind_ok.mp (Machine.leads_adapt_ok.mp h)
  cases held with
  | true =>
    rw [(Machine.leads_pure.mp hrest).2, ← keeps_holds path text _ _ _ hholds]
    exact leads_holds_true hholds
  | false =>
    obtain ⟨_, v, hreplace, hpure⟩ := Machine.leads_bind_ok.mp hrest
    obtain ⟨e, bytes, q, hbytes, hq, -, hputs⟩ := leads_replaceText_ok (fun _ => False) hreplace
    obtain ⟨changed, hfile⟩ := hputs.file
    rw [(Machine.leads_pure.mp hpure).2]
    refine ⟨bytes, text, Disk.read_eq_ok.mpr ⟨q, hq, ?_⟩, Utf8.decode_encode hbytes,
      Text.unifyLineBreaks_eq_self hcr⟩
    unfold Disk.file?
    rw [hfile]

/-- **The write of an artifact changes no other file**, and leaves none behind. -/
theorem changesAt_of_leads_write : s.disk.ChangesAt path s'.disk := by
  rcases leads_write_ok (fun _ => False) h with hdisk | ⟨e, bytes, q, -, hq, hgrows, hputs⟩
  · rw [hdisk]
    exact ⟨.refl _, fun _ _ => rfl⟩
  · refine ⟨hgrows.directoriesStay.trans hputs.directoriesStay, fun p hp => ?_⟩
    have hne : p ≠ q := by
      rintro rfl
      exact hp hq
    exact ((hgrows.growsAt p).trans (hputs.growsAt hne)).stays.resolve_right fun hspare => hspare.2

end Artifact

end Phrasebook
