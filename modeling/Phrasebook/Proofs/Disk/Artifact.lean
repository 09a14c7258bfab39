import Phrasebook.Disk.Artifact
import Phrasebook.Proofs.Disk.Machine
import Phrasebook.Proofs.Disk.Tree

/-! # What the write of an artifact changes

A write that succeeds leaves the disk as it is or puts the text at the place of the artifact
(`leads_write_ok`); one that fails leaves every file as it is (`leads_write_error`). The directories
above the artifact may be new, and where the temporary file could not be removed it is left behind. -/

namespace Phrasebook

open Machine (Leads Keeps)

/-! ### Directories -/

namespace Host

variable {spare : Place → Prop}

theorem keeps_unlessDirectory {path : DiskPath} {attempt : ExceptT FileFault (StateM Machine) Unit}
    (h : Keeps (Disk.Grows spare) attempt) :
    Keeps (Disk.Grows spare) (unlessDirectory path attempt) := by
  refine h.tryCatch fun fault => ?_
  refine (Machine.keeps_lift fun _ => rfl).bind fun isThere => ?_
  split_ifs
  · exact Machine.keeps_pure _
  · exact Machine.keeps_throw _

/-- **Creating directories** changes nothing else. -/
theorem keeps_makeDirectories (path : DiskPath) :
    Keeps (Disk.Grows spare) (makeDirectories (m := StateM Machine) path) := by
  have hone : ∀ p, Keeps (Disk.Grows spare) (makeDirectory (m := StateM Machine) p) := fun p =>
    Machine.keeps_change fun _ _ => Disk.grows_makeDirectory
  unfold makeDirectories
  induction path.parts.reverse with
  | nil => exact keeps_unlessDirectory (hone _)
  | cons last above ih =>
    refine (hone _).tryCatch fun fault => ?_
    split_ifs
    · exact ih.bind fun _ => keeps_unlessDirectory (hone _)
    · exact keeps_unlessDirectory (Machine.keeps_throw _)

end Host

namespace Artifact

variable {s s' : Machine} {path : DiskPath} {text : Text}

/-! ### Looking at a file -/

theorem keeps_readText (path : DiskPath) : Keeps Eq (readText (m := StateM Machine) path) := by
  refine ((Machine.keeps_ask _).adapt _).bind fun bytes => ?_
  split
  · exact Machine.keeps_pure _
  · exact Machine.keeps_throw _

theorem keeps_holds (path : DiskPath) (text : Text) :
    Keeps Eq (holds (m := StateM Machine) path text) := by
  refine ((Machine.keeps_ask _).adapt _).bind fun isFile => ?_
  split_ifs
  · exact (keeps_readText path).bind fun _ => Machine.keeps_pure _
  · exact Machine.keeps_pure _

/-! ### Replacing a file -/

theorem leads_writeText_ok {u : Unit} (h : Leads (writeText path text) s (.ok u) s') :
    ∃ bytes, Utf8.encode text = .ok bytes ∧ s.disk.write path bytes = .ok s'.disk := by
  unfold writeText at h
  split at h
  next bytes hbytes => exact ⟨bytes, hbytes, Machine.leads_change_ok (Machine.leads_adapt_ok.mp h)⟩
  next => cases (Machine.leads_throw.mp h).1

theorem leads_writeText_error {reason : Text}
    (h : Leads (writeText path text) s (.error reason) s') : s'.disk = s.disk := by
  unfold writeText at h
  split at h
  next =>
    obtain ⟨_, -, hwrite⟩ := Machine.leads_adapt_error.mp h
    exact Machine.leads_change_error hwrite
  next => rw [(Machine.leads_throw.mp h).2]

section Temporary
variable {d : Disk} {temporary : DiskPath} {place : Place} {content : Bytes}
  (hpath : s.disk.locate temporary = .ok place) (h : d.Holds place content s.disk)
include hpath h

/-- A temporary file is given the text and moved. -/
theorem leads_moveText_ok
    (hne : ∀ e : Disk, ∀ q, e.locate path = .ok q → Disk.isTarget path = true → q ≠ place)
    {u : Unit} (hmove : Leads (do
      writeText temporary text
      worded (Host.replace temporary path)) s (.ok u) s') :
    ∃ bytes q, Utf8.encode text = .ok bytes ∧ s'.disk.locate path = .ok q ∧
      d.Puts q bytes s'.disk := by
  obtain ⟨_, t, hwrite, hreplace⟩ := Machine.leads_bind_ok.mp hmove
  obtain ⟨bytes, hbytes, hdisk⟩ := leads_writeText_ok hwrite
  obtain ⟨hlocate, hholds⟩ := h.write hpath hdisk
  have hmoved := Machine.leads_change_ok (Machine.leads_adapt_ok.mp hreplace)
  obtain ⟨q, hq, hputs⟩ := hholds.puts_replace hlocate (hne t.disk) hmoved
  exact ⟨bytes, q, hbytes, hq, hputs⟩

theorem leads_moveText_error {reason : Text} (hmove : Leads (do
      writeText temporary text
      worded (Host.replace temporary path)) s (.error reason) s') :
    ∃ left, s'.disk.locate temporary = .ok place ∧ d.Holds place left s'.disk := by
  rcases Machine.leads_bind_error.mp hmove with hwrite | ⟨_, t, hwrite, hreplace⟩
  · rw [leads_writeText_error hwrite]
    exact ⟨content, hpath, h⟩
  · obtain ⟨bytes, -, hdisk⟩ := leads_writeText_ok hwrite
    obtain ⟨_, -, hbare⟩ := Machine.leads_adapt_error.mp hreplace
    rw [Machine.leads_change_error hbare]
    exact ⟨bytes, h.write hpath hdisk⟩

theorem grows_discard {spare : Place → Prop} (hspare : spare place) {r : Except FileFault Unit}
    (hdiscard : Leads (discard temporary) s r s') : d.Grows spare s'.disk := by
  have hremove : ∀ r t, Leads (Host.removeFile (m := StateM Machine) temporary) s r t →
      d.Grows spare t.disk := by
    intro r t hleads
    cases r with
    | ok u => exact h.grows_remove hpath (Machine.leads_change_ok hleads)
    | error fault =>
      rw [Machine.leads_change_error hleads]
      exact h.grows hspare
  rcases Machine.leads_tryCatch.mp hdiscard with ⟨_, -, hleads⟩ | ⟨fault, t, hleads, hrest⟩
  · exact hremove _ _ hleads
  · have hsame : s' = t := by
      split_ifs at hrest
      · exact (Machine.leads_pure.mp hrest).2
      · exact (Machine.leads_throw.mp hrest).2
    rw [hsame]
    exact hremove _ _ hleads

theorem leads_undo {spare : Place → Prop} (hspare : spare place) {reason : Text}
    {r : Except Text Unit} (hundo : Leads (do
      worded (discard temporary)
      throw reason) s r s') : (∃ other, r = .error other) ∧ d.Grows spare s'.disk := by
  rcases Machine.leads_bind.mp hundo with ⟨_, t, hdiscard, hthrow⟩ | ⟨other, rfl, hdiscard⟩
  · obtain ⟨rfl, rfl⟩ := Machine.leads_throw.mp hthrow
    exact ⟨⟨reason, rfl⟩, grows_discard hpath h hspare (Machine.leads_adapt_ok.mp hdiscard)⟩
  · obtain ⟨_, -, hbare⟩ := Machine.leads_adapt_error.mp hdiscard
    exact ⟨⟨other, rfl⟩, grows_discard hpath h hspare hbare⟩

end Temporary

theorem leads_createTemporary_ok {directory temporary : DiskPath} {name : Text}
    (h : Leads (worded (Host.createTemporary directory name)) s (.ok temporary) s') :
    ∃ place, Disk.IsTemporary name place ∧ s'.disk.locate temporary = .ok place ∧
      s.disk.Holds place [] s'.disk := by
  obtain ⟨above, number, hlocate, hholds⟩ := Disk.holds_createTemporary
    (Machine.leads_operate_ok (Machine.leads_adapt_ok.mp h))
  exact ⟨_, ⟨above, number, rfl⟩, hlocate, hholds⟩

section Replace

theorem keeps_createDirectories {spare : Place → Prop} (path : DiskPath) :
    Keeps (Disk.Grows spare) (worded (Host.makeDirectories (m := StateM Machine) path.parent)) :=
  (Host.keeps_makeDirectories _).adapt _

/-- **Replacing a file** puts the text in its place and leaves nothing behind. -/
theorem leads_replaceText_ok (spare : Place → Prop) {u : Unit}
    (h : Leads (replaceText path text) s (.ok u) s') :
    ∃ e bytes q, Utf8.encode text = .ok bytes ∧ s'.disk.locate path = .ok q ∧
      s.disk.Grows spare e ∧ e.Puts q bytes s'.disk := by
  obtain ⟨_, t, hmake, hrest⟩ := Machine.leads_bind_ok.mp h
  obtain ⟨temporary, v, hcreate, htry⟩ := Machine.leads_bind_ok.mp hrest
  obtain ⟨place, hplace, hpath, hholds⟩ := leads_createTemporary_ok hcreate
  rcases Machine.leads_tryCatch.mp htry with ⟨_, -, hmove⟩ | ⟨reason, w, hmove, hundo⟩
  · obtain ⟨bytes, q, hbytes, hq, hputs⟩ :=
      leads_moveText_ok hpath hholds (fun _ _ => hplace.ne_of_isTarget) hmove
    exact ⟨t.disk, bytes, q, hbytes, hq, keeps_createDirectories path _ _ _ hmake, hputs⟩
  · obtain ⟨left, hpath', hholds'⟩ := leads_moveText_error hpath hholds hmove
    obtain ⟨⟨_, hr⟩, -⟩ := leads_undo hpath' hholds' hplace hundo
    cases hr

theorem writeText_eq {bytes : Bytes} (h : Utf8.encode text = .ok bytes) :
    writeText (m := StateM Machine) path text = worded (Host.writeBytes path bytes) := by
  unfold writeText
  rw [h]

theorem leads_replaceText_of_eq_ok {bytes : Bytes} {temporary : DiskPath}
    {d held written e : Disk} {notices : List Notice}
    (hparent : Leads (Host.makeDirectories path.parent) { disk := d, notices } (.ok ())
      { disk := d, notices })
    (hcreate : d.createTemporary path.parent path.name = .ok (temporary, held))
    (hbytes : Utf8.encode text = .ok bytes) (hwrite : held.write temporary bytes = .ok written)
    (hreplace : written.replace temporary path = .ok e) :
    Leads (replaceText path text) { disk := d, notices } (.ok ()) { disk := e, notices } := by
  have hmove : Leads (do
      writeText temporary text
      worded (Host.replace temporary path)) { disk := held, notices } (.ok ())
      { disk := e, notices } := by
    rw [writeText_eq hbytes]
    refine Machine.leads_bind_ok.mpr ⟨(), { disk := written, notices }, ?_, ?_⟩
    · exact Machine.leads_adapt_ok.mpr (Machine.leads_change_of_eq_ok hwrite rfl)
    · exact Machine.leads_adapt_ok.mpr (Machine.leads_change_of_eq_ok hreplace rfl)
  refine Machine.leads_bind_ok.mpr ⟨(), _, Machine.leads_adapt_ok.mpr hparent, ?_⟩
  refine Machine.leads_bind_ok.mpr ⟨temporary, _,
    Machine.leads_adapt_ok.mpr (Machine.leads_operate_of_eq_ok hcreate rfl), ?_⟩
  exact Machine.leads_tryCatch.mpr (.inl ⟨(), rfl, hmove⟩)

/-- **A replacement that fails** leaves every file as it is. -/
theorem leads_replaceText_error {reason : Text}
    (h : Leads (replaceText path text) s (.error reason) s') :
    s.disk.Grows (Disk.IsTemporary path.name) s'.disk := by
  rcases Machine.leads_bind_error.mp h with hmake | ⟨_, t, hmake, hrest⟩
  · exact keeps_createDirectories path _ _ _ hmake
  have hgrows : s.disk.Grows (Disk.IsTemporary path.name) t.disk :=
    keeps_createDirectories path _ _ _ hmake
  rcases Machine.leads_bind_error.mp hrest with hcreate | ⟨temporary, v, hcreate, htry⟩
  · obtain ⟨_, -, hbare⟩ := Machine.leads_adapt_error.mp hcreate
    rw [Machine.leads_operate_error hbare]
    exact hgrows
  obtain ⟨place, hplace, hpath, hholds⟩ := leads_createTemporary_ok hcreate
  obtain ⟨_, w, hmove, hundo⟩ := Machine.leads_tryCatch_error.mp htry
  obtain ⟨left, hpath', hholds'⟩ := leads_moveText_error hpath hholds hmove
  exact hgrows.trans (leads_undo hpath' hholds' hplace hundo).2

end Replace

/-! ### Writing an artifact -/

/-- **What the write of an artifact changes**: nothing, if it holds the text already, or else its
content. -/
theorem leads_write_ok (spare : Place → Prop) {written : Bool}
    (h : Leads (write path text) s (.ok written) s') :
    s'.disk = s.disk ∨ ∃ e bytes q, Utf8.encode text = .ok bytes ∧ s'.disk.locate path = .ok q ∧
      s.disk.Grows spare e ∧ e.Puts q bytes s'.disk := by
  obtain ⟨held, t, hholds, hrest⟩ := Machine.leads_bind_ok.mp (Machine.leads_adapt_ok.mp h)
  have hdisk := keeps_holds path text _ _ _ hholds
  cases held with
  | true =>
    rw [(Machine.leads_pure.mp hrest).2]
    exact .inl hdisk.symm
  | false =>
    obtain ⟨_, v, hreplace, hpure⟩ := Machine.leads_bind_ok.mp hrest
    rw [(Machine.leads_pure.mp hpure).2, hdisk]
    exact .inr (leads_replaceText_ok spare hreplace)

/-- **A write that fails** leaves every file as it is, and its problem names the artifact. -/
theorem leads_write_error {problem : Problem}
    (h : Leads (write path text) s (.error problem) s') :
    (∃ reason, problem = .artifactWriteFailed path.toText reason) ∧
      s.disk.Grows (Disk.IsTemporary path.name) s'.disk := by
  obtain ⟨reason, hproblem, hwrite⟩ := Machine.leads_adapt_error.mp h
  refine ⟨⟨reason, hproblem⟩, ?_⟩
  rcases Machine.leads_bind_error.mp hwrite with hholds | ⟨held, t, hholds, hrest⟩
  · rw [← keeps_holds path text _ _ _ hholds]
    exact Disk.Grows.refl _
  have hdisk := keeps_holds path text _ _ _ hholds
  cases held with
  | true => cases (Machine.leads_pure.mp hrest).1
  | false =>
    rw [hdisk]
    rcases Machine.leads_bind_error.mp hrest with hreplace | ⟨_, v, -, hpure⟩
    · exact leads_replaceText_error hreplace
    · cases (Machine.leads_pure.mp hpure).1

end Artifact

end Phrasebook
