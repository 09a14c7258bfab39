import Phrasebook.Proofs.Disk.Artifact

/-! # All or nothing

The write of an artifact goes through steps: the old file is looked at, directories and a temporary
file are created, the temporary file is given the text, and it is moved. Whichever step fails
(`Artifact.FailsAt`), the write fails with the path and the reason of that step, and every file is
as it was before, provided that the temporary file could be removed. A write that succeeds changes
the artifact alone, and a write that was not necessary changes nothing
(`Artifact.allOrNothing_write`). -/

namespace Phrasebook

open Machine (Leads)

namespace Artifact

variable {s s' t : Machine} {path temporary : DiskPath} {text reason : Text}

/-! ### The steps -/

/-- **A temporary file is ready**: the artifact does not hold the text, and the directories above it
and the temporary file were created. -/
inductive Prepared (path : DiskPath) (text : Text) (s : Machine) (temporary : DiskPath)
    (t : Machine) : Prop where
  | intro {s₁ s₂ : Machine} (hlook : Leads (holds path text) s (.ok false) s₁)
      (hdirectories : Leads (worded (Host.makeDirectories path.parent)) s₁ (.ok ()) s₂)
      (htemporary : Leads (worded (Host.createTemporary path.parent path.name)) s₂
        (.ok temporary) t)

theorem Prepared.unique {other : DiskPath} {u : Machine} (h : Prepared path text s temporary t)
    (hother : Prepared path text s other u) : temporary = other ∧ t = u := by
  obtain ⟨hlook, hdirectories, htemporary⟩ := h
  obtain ⟨hlook', hdirectories', htemporary'⟩ := hother
  obtain ⟨-, rfl⟩ := hlook.unique hlook'
  obtain ⟨-, rfl⟩ := hdirectories.unique hdirectories'
  obtain ⟨hsame, rfl⟩ := htemporary.unique htemporary'
  exact ⟨Except.ok.inj hsame, rfl⟩

/-- **A step of the write fails** for a reason, after the steps before it have succeeded. The
temporary file is given if there is one by then, and so is the machine at this moment. -/
inductive FailsAt (path : DiskPath) (text : Text) (s : Machine) :
    Option DiskPath → Text → Machine → Prop where
  /-- The old file is not found out about, not read or not decoded. -/
  | look {reason : Text} {t : Machine} (h : Leads (holds path text) s (.error reason) t) :
      FailsAt path text s none reason t
  /-- A directory above the artifact is not created. -/
  | makeDirectories {s₁ t : Machine} {reason : Text}
      (hlook : Leads (holds path text) s (.ok false) s₁)
      (h : Leads (worded (Host.makeDirectories path.parent)) s₁ (.error reason) t) :
      FailsAt path text s none reason t
  /-- The temporary file is not created. -/
  | createTemporary {s₁ s₂ t : Machine} {reason : Text}
      (hlook : Leads (holds path text) s (.ok false) s₁)
      (hdirectories : Leads (worded (Host.makeDirectories path.parent)) s₁ (.ok ()) s₂)
      (h : Leads (worded (Host.createTemporary path.parent path.name)) s₂ (.error reason) t) :
      FailsAt path text s none reason t
  /-- The text is not encoded, or not written to the temporary file. -/
  | fill {temporary : DiskPath} {s₃ t : Machine} {reason : Text}
      (hprepared : Prepared path text s temporary s₃)
      (h : Leads (writeText temporary text) s₃ (.error reason) t) :
      FailsAt path text s (some temporary) reason t
  /-- The temporary file is not moved. -/
  | move {temporary : DiskPath} {s₃ s₄ t : Machine} {reason : Text}
      (hprepared : Prepared path text s temporary s₃)
      (hfill : Leads (writeText temporary text) s₃ (.ok ()) s₄)
      (h : Leads (worded (Host.replace temporary path)) s₄ (.error reason) t) :
      FailsAt path text s (some temporary) reason t

/-! ### The outcomes of a write -/

theorem leads_write_ok_false :
    Leads (write path text) s (.ok false) s' ↔ Leads (holds path text) s (.ok true) s' := by
  unfold write
  rw [Machine.leads_adapt_ok, Machine.leads_bind_ok]
  constructor
  · rintro ⟨held, t, hlook, hrest⟩
    cases held with
    | true =>
      obtain ⟨-, rfl⟩ := Machine.leads_pure.mp hrest
      exact hlook
    | false =>
      obtain ⟨_, _, -, hpure⟩ := Machine.leads_bind_ok.mp hrest
      cases (Machine.leads_pure.mp hpure).1
  · intro hlook
    exact ⟨true, s', hlook, Machine.leads_pure.mpr ⟨rfl, rfl⟩⟩

theorem leads_write_ok_true : Leads (write path text) s (.ok true) s' ↔
    ∃ t, Leads (holds path text) s (.ok false) t ∧ Leads (replaceText path text) t (.ok ()) s' := by
  unfold write
  rw [Machine.leads_adapt_ok, Machine.leads_bind_ok]
  constructor
  · rintro ⟨held, t, hlook, hrest⟩
    cases held with
    | true => cases (Machine.leads_pure.mp hrest).1
    | false =>
      obtain ⟨_, u, hreplace, hpure⟩ := Machine.leads_bind_ok.mp hrest
      obtain ⟨-, rfl⟩ := Machine.leads_pure.mp hpure
      exact ⟨t, hlook, hreplace⟩
  · rintro ⟨t, hlook, hreplace⟩
    refine ⟨false, t, hlook, Machine.leads_bind_ok.mpr ⟨(), s', hreplace, ?_⟩⟩
    exact Machine.leads_pure.mpr ⟨rfl, rfl⟩

theorem leads_write_error_iff {problem : Problem} : Leads (write path text) s (.error problem) s' ↔
    ∃ reason, problem = .artifactWriteFailed path.toText reason ∧
      (Leads (holds path text) s (.error reason) s' ∨ ∃ t,
        Leads (holds path text) s (.ok false) t ∧
          Leads (replaceText path text) t (.error reason) s') := by
  unfold write
  rw [Machine.leads_adapt_error]
  refine exists_congr fun reason => and_congr_right fun _ => ?_
  rw [Machine.leads_bind_error]
  refine or_congr_right ?_
  constructor
  · rintro ⟨held, t, hlook, hrest⟩
    cases held with
    | true => cases (Machine.leads_pure.mp hrest).1
    | false =>
      rcases Machine.leads_bind_error.mp hrest with hreplace | ⟨_, _, -, hpure⟩
      · exact ⟨t, hlook, hreplace⟩
      · cases (Machine.leads_pure.mp hpure).1
  · rintro ⟨t, hlook, hreplace⟩
    exact ⟨false, t, hlook, Machine.leads_bind_error.mpr (.inl hreplace)⟩

/-! ### Failures -/

theorem leads_undo_of_removed {s'' : Machine}
    (hremove : Leads (Host.removeFile temporary) t (.ok ()) s'') (reason : Text) :
    Leads (do
      worded (discard temporary)
      throw reason : ExceptT Text (StateM Machine) Unit) t (.error reason) s'' := by
  have hdiscard : Leads (discard temporary) t (.ok ()) s'' :=
    Machine.leads_tryCatch.mpr (.inl ⟨(), rfl, hremove⟩)
  refine Machine.leads_bind_error.mpr (.inr ⟨(), s'', Machine.leads_adapt_ok.mpr hdiscard, ?_⟩)
  exact Machine.leads_throw.mpr ⟨rfl, rfl⟩

theorem leads_write_of_prepared {s₃ s'' : Machine} (hprepared : Prepared path text s temporary s₃)
    (hmove : Leads (do
      writeText temporary text
      worded (Host.replace temporary path) : ExceptT Text (StateM Machine) Unit) s₃
        (.error reason) t)
    (hremove : Leads (Host.removeFile temporary) t (.ok ()) s'') :
    Leads (write path text) s (.error (.artifactWriteFailed path.toText reason)) s'' := by
  obtain @⟨s₁, s₂, hlook, hdirectories, htemporary⟩ := hprepared
  have hreplace : Leads (replaceText path text) s₁ (.error reason) s'' := by
    refine Machine.leads_bind_error.mpr (.inr ⟨(), _, hdirectories, ?_⟩)
    refine Machine.leads_bind_error.mpr (.inr ⟨temporary, _, htemporary, ?_⟩)
    exact Machine.leads_tryCatch.mpr
      (.inr ⟨reason, t, hmove, leads_undo_of_removed hremove reason⟩)
  exact leads_write_error_iff.mpr ⟨reason, rfl, .inr ⟨_, hlook, hreplace⟩⟩

/-- **A step that fails before there is a temporary file** ends the write. -/
theorem leads_write_of_failsAt_none (h : FailsAt path text s none reason t) :
    Leads (write path text) s (.error (.artifactWriteFailed path.toText reason)) t := by
  refine leads_write_error_iff.mpr ⟨reason, rfl, ?_⟩
  cases h with
  | look h => exact .inl h
  | makeDirectories hlook h => exact .inr ⟨_, hlook, Machine.leads_bind_error.mpr (.inl h)⟩
  | createTemporary hlook hdirectories h =>
    refine .inr ⟨_, hlook, Machine.leads_bind_error.mpr (.inr ⟨(), _, hdirectories, ?_⟩)⟩
    exact Machine.leads_bind_error.mpr (.inl h)

/-- **A step that fails after the temporary file was created** ends the write, and the temporary
file is removed. -/
theorem leads_write_of_failsAt_some (h : FailsAt path text s (some temporary) reason t)
    (hremove : Leads (Host.removeFile temporary) t (.ok ()) s') :
    Leads (write path text) s (.error (.artifactWriteFailed path.toText reason)) s' := by
  cases h with
  | fill hprepared h =>
    exact leads_write_of_prepared hprepared (Machine.leads_bind_error.mpr (.inl h)) hremove
  | move hprepared hfill h =>
    refine leads_write_of_prepared hprepared ?_ hremove
    exact Machine.leads_bind_error.mpr (.inr ⟨(), _, hfill, h⟩)

/-- **A write fails only where one of its steps does.** -/
theorem exists_failsAt {problem : Problem} (h : Leads (write path text) s (.error problem) s') :
    ∃ temporary reason t, FailsAt path text s temporary reason t := by
  obtain ⟨reason, -, hlook | ⟨s₁, hlook, hreplace⟩⟩ := leads_write_error_iff.mp h
  · exact ⟨_, _, _, .look hlook⟩
  rcases Machine.leads_bind_error.mp hreplace with hmake | ⟨_, s₂, hmake, hrest⟩
  · exact ⟨_, _, _, .makeDirectories hlook hmake⟩
  rcases Machine.leads_bind_error.mp hrest with hcreate | ⟨temporary, s₃, hcreate, htry⟩
  · exact ⟨_, _, _, .createTemporary hlook hmake hcreate⟩
  have hprepared : Prepared path text s temporary s₃ := .intro hlook hmake hcreate
  obtain ⟨first, t, hmove, -⟩ := Machine.leads_tryCatch_error.mp htry
  rcases Machine.leads_bind_error.mp hmove with hfill | ⟨_, s₄, hfill, hbare⟩
  · exact ⟨_, _, _, .fill hprepared hfill⟩
  · exact ⟨_, _, _, .move hprepared hfill hbare⟩

/-! ### The files after a write -/

theorem FailsAt.grows (h : FailsAt path text s none reason t) (spare : Place → Prop) :
    s.disk.Grows spare t.disk := by
  cases h with
  | look h =>
    rw [← keeps_holds path text _ _ _ h]
    exact Disk.Grows.refl _
  | makeDirectories hlook h =>
    rw [keeps_holds path text _ _ _ hlook]
    exact keeps_createDirectories path _ _ _ h
  | createTemporary hlook hdirectories h =>
    obtain ⟨_, -, hbare⟩ := Machine.leads_adapt_error.mp h
    rw [Machine.leads_operate_error hbare, keeps_holds path text _ _ _ hlook]
    exact keeps_createDirectories path _ _ _ hdirectories

theorem Prepared.exists_holds (h : Prepared path text s temporary t) (spare : Place → Prop) :
    ∃ d place, t.disk.locate temporary = .ok place ∧ s.disk.Grows spare d ∧
      d.Holds place [] t.disk := by
  obtain @⟨s₁, s₂, hlook, hdirectories, htemporary⟩ := h
  have hdisk := keeps_holds path text _ _ _ hlook
  have hgrows : s₁.disk.Grows spare s₂.disk := keeps_createDirectories path _ _ _ hdirectories
  obtain ⟨place, -, hpath, hholds⟩ := leads_createTemporary_ok htemporary
  rw [hdisk]
  exact ⟨_, place, hpath, hgrows, hholds⟩

theorem FailsAt.exists_holds (h : FailsAt path text s (some temporary) reason t)
    (spare : Place → Prop) : ∃ d place content, t.disk.locate temporary = .ok place ∧
      s.disk.Grows spare d ∧ d.Holds place content t.disk := by
  cases h with
  | fill hprepared h =>
    obtain ⟨d, place, hpath, hgrows, hholds⟩ := hprepared.exists_holds spare
    rw [leads_writeText_error h]
    exact ⟨d, place, [], hpath, hgrows, hholds⟩
  | move hprepared hfill h =>
    obtain ⟨d, place, hpath, hgrows, hholds⟩ := hprepared.exists_holds spare
    obtain ⟨bytes, -, hwrite⟩ := leads_writeText_ok hfill
    obtain ⟨hpath', hholds'⟩ := hholds.write hpath hwrite
    obtain ⟨_, -, hbare⟩ := Machine.leads_adapt_error.mp h
    rw [Machine.leads_change_error hbare]
    exact ⟨d, place, bytes, hpath', hgrows, hholds'⟩

theorem FailsAt.grows_remove (h : FailsAt path text s (some temporary) reason t)
    (hremove : Leads (Host.removeFile temporary) t (.ok ()) s') (spare : Place → Prop) :
    s.disk.Grows spare s'.disk := by
  obtain ⟨d, place, content, hpath, hgrows, hholds⟩ := h.exists_holds spare
  have hremoved : t.disk.remove temporary = .ok s'.disk := Machine.leads_change_ok hremove
  exact hgrows.trans (hholds.grows_remove hpath hremoved)

/-! ### All or nothing -/

/-- The temporary file can be removed after every step that fails. -/
def Removable (path : DiskPath) (text : Text) (s : Machine) : Prop :=
  ∀ temporary reason t, FailsAt path text s (some temporary) reason t →
    ∃ t', Leads (Host.removeFile temporary) t (.ok ()) t'

/-- **A write is all or nothing**, by its outcome and the machine after it. -/
structure AllOrNothing (path : DiskPath) (text : Text) (s : Machine) (r : Except Problem Bool)
    (s' : Machine) : Prop where
  /-- A step that fails is reported, with the path of the artifact and the reason. -/
  reported : ∀ temporary reason t, FailsAt path text s temporary reason t →
    r = .error (.artifactWriteFailed path.toText reason)
  /-- Nothing else is reported, and every file is as before: the artifact is, and no temporary file
  is left. -/
  failed : ∀ problem, r = .error problem → (∃ temporary reason t,
    FailsAt path text s temporary reason t) ∧ ∀ q, s'.disk.file? q = s.disk.file? q
  /-- An artifact that was written holds the bytes of the text, and every other file is as before.
  -/
  written : r = .ok true → ∃ bytes q, Utf8.encode text = .ok bytes ∧
    s'.disk.locate path = .ok q ∧ s'.disk.file? q = some bytes ∧
      ∀ p, p ≠ q → s'.disk.file? p = s.disk.file? p
  /-- Where nothing was written, nothing has changed. -/
  unchanged : r = .ok false → s'.disk = s.disk

theorem exists_leads_write_of_failsAt (hremove : Removable path text s)
    {temporary : Option DiskPath} {reason : Text} {t : Machine}
    (h : FailsAt path text s temporary reason t) :
    ∃ s'', Leads (write path text) s (.error (.artifactWriteFailed path.toText reason)) s'' ∧
      ∀ q, s''.disk.file? q = s.disk.file? q := by
  cases temporary with
  | none => exact ⟨t, leads_write_of_failsAt_none h, (h.grows _).file?_eq⟩
  | some temporary =>
    obtain ⟨s'', hremoved⟩ := hremove temporary reason t h
    have hleads := leads_write_of_failsAt_some h hremoved
    exact ⟨s'', hleads, (h.grows_remove hremoved _).file?_eq⟩

/-- **The write of an artifact is all or nothing**, whichever of its steps fails, provided that the
temporary file can be removed. -/
theorem allOrNothing_write {r : Except Problem Bool} (h : Leads (write path text) s r s')
    (hremove : Removable path text s) : AllOrNothing path text s r s' where
  reported := by
    intro temporary reason t hfails
    obtain ⟨s'', hleads, -⟩ := exists_leads_write_of_failsAt hremove hfails
    exact (h.unique hleads).1
  failed := by
    rintro problem rfl
    obtain ⟨temporary, reason, t, hfails⟩ := exists_failsAt h
    obtain ⟨s'', hleads, hfiles⟩ := exists_leads_write_of_failsAt hremove hfails
    obtain ⟨-, rfl⟩ := h.unique hleads
    exact ⟨⟨temporary, reason, t, hfails⟩, hfiles⟩
  written := by
    rintro rfl
    obtain ⟨t, hlook, hreplace⟩ := leads_write_ok_true.mp h
    obtain ⟨e, bytes, q, hbytes, hq, hgrows, hputs⟩ :=
      leads_replaceText_ok (fun _ => False) hreplace
    rw [← keeps_holds path text _ _ _ hlook] at hgrows
    obtain ⟨changed, hfile⟩ := hputs.file
    refine ⟨bytes, q, hbytes, hq, ?_, fun p hp => ?_⟩
    · unfold Disk.file?
      rw [hfile]
    · have hput : s'.disk.file? p = e.file? p := by
        unfold Disk.file?
        rw [hputs.elsewhere p hp]
      rw [hput, hgrows.file?_eq]
  unchanged := by
    rintro rfl
    exact (keeps_holds path text _ _ _ (leads_write_ok_false.mp h)).symm

/-- A machine on which the file `lang.js` is not replaced: it takes the sixth operation to get
there, after one look, one reading, one directory, one temporary file and one writing. -/
def unmovedMachine : Machine :=
  { disk := { nodes := [(["lang.js"], .file [0x6F] 0)], time := 1 }
    plan := [none, none, none, none, none, some .busy] }

/-- The temporary file is removed, and the old file is still there. -/
theorem allOrNothing_write_unmoved : ∃ s', Removable ⟨.here, ["lang.js"]⟩ "new" unmovedMachine ∧
    AllOrNothing ⟨.here, ["lang.js"]⟩ "new" unmovedMachine
      (.error (.artifactWriteFailed "lang.js" "Device or resource busy")) s' := by
  let path : DiskPath := ⟨.here, ["lang.js"]⟩
  let held := unmovedMachine.disk.withFile [".lang.js.0.tmp"] []
  let filled := held.withFile [".lang.js.0.tmp"] [0x6E, 0x65, 0x77]
  have hlook : Leads (holds path "new") unmovedMachine (.ok false)
      { unmovedMachine with plan := [none, none, none, some .busy] } := by rfl
  have hdirectories : Leads (worded (Host.makeDirectories path.parent))
      { unmovedMachine with plan := [none, none, none, some .busy] } (.ok ())
      { unmovedMachine with plan := [none, none, some .busy] } := by rfl
  have hcreate : unmovedMachine.disk.createTemporary path.parent path.name =
      .ok (⟨.here, [".lang.js.0.tmp"]⟩, held) := by
    have hlist : unmovedMachine.disk.list path.parent = .ok ["lang.js"] := rfl
    unfold Disk.createTemporary
    rw [hlist]
    rfl
  have htemporary : Leads (worded (Host.createTemporary path.parent path.name))
      { unmovedMachine with plan := [none, none, some .busy] } (.ok ⟨.here, [".lang.js.0.tmp"]⟩)
      { disk := held, plan := [none, some .busy] } := by
    refine Machine.leads_adapt_ok.mpr ?_
    simp only [Machine.Leads, Host.createTemporary, Machine.operate, ExceptT.run_mk, StateT.run,
      Id.run, hcreate]
    rfl
  have hfill : Leads (writeText ⟨.here, [".lang.js.0.tmp"]⟩ "new")
      { disk := held, plan := [none, some .busy] } (.ok ())
      { disk := filled, plan := [some .busy] } := by rfl
  have hmove : Leads (worded (Host.replace ⟨.here, [".lang.js.0.tmp"]⟩ path))
      { disk := filled, plan := [some .busy] } (.error "Device or resource busy")
      { disk := filled } := by rfl
  have hprepared : Prepared path "new" unmovedMachine ⟨.here, [".lang.js.0.tmp"]⟩
      { disk := held, plan := [none, some .busy] } := ⟨hlook, hdirectories, htemporary⟩
  obtain ⟨s', hremoved⟩ : ∃ s', Leads (Host.removeFile ⟨.here, [".lang.js.0.tmp"]⟩)
      { disk := filled } (.ok ()) s' := ⟨_, rfl⟩
  have hremovable : Removable path "new" unmovedMachine := by
    intro temporary reason t hfails
    cases hfails with
    | fill hother h =>
      obtain ⟨rfl, rfl⟩ := hother.unique hprepared
      cases (h.unique hfill).1
    | move hother hfilled h =>
      obtain ⟨rfl, rfl⟩ := hother.unique hprepared
      obtain ⟨-, rfl⟩ := hfilled.unique hfill
      obtain ⟨-, rfl⟩ := h.unique hmove
      exact ⟨s', hremoved⟩
  have hleads := leads_write_of_failsAt_some (.move hprepared hfill hmove) hremoved
  exact ⟨s', hremovable, allOrNothing_write hleads hremovable⟩

end Artifact

end Phrasebook
