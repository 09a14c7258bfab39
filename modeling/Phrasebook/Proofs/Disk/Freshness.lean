import Phrasebook.Proofs.Disk.AllOrNothing
import Phrasebook.Proofs.Disk.Storage

/-! # Artifacts that are left alone

An artifact is written only where it does not hold its text. The look compares texts with unified
line breaks, not bytes: a file with other bytes may pass for the text, and one whose bytes are not
well formed makes the write fail (`Artifact.leads_write_of_decode`,
`Artifact.leads_write_of_malformed`). Thus the write gives the file the bytes of the text, as a
write without the look would, exactly if there is no file, or one that is well formed and no other
spelling of the text (`Artifact.bringsTo_iff`). -/

namespace Phrasebook

open Machine (Leads)

namespace Artifact

variable {s s' : Machine} {path : DiskPath} {text t : Text} {bytes old : Bytes}

/-! ### The look at the artifact -/

theorem leads_holds_of_not_isFile (hplan : s.plan = []) (h : s.disk.isFile path = false)
    (text : Text) : Leads (holds path text) s (.ok false) s := by
  have hfile := Disk.leads_isFile path hplan
  rw [h] at hfile
  exact Machine.leads_bind_ok.mpr ⟨false, s, hfile, Machine.leads_pure.mpr ⟨rfl, rfl⟩⟩

theorem leads_holds_of_malformed {fault : Utf8.MalformedBytes} (hplan : s.plan = [])
    (hread : s.disk.read path = .ok old) (hdecode : Utf8.decode old = .error fault) (text : Text) :
    Leads (holds path text) s (.error fault.message) s := by
  have hfile := Disk.leads_isFile path hplan
  rw [Disk.isFile_iff.mpr ⟨old, hread⟩] at hfile
  have hthrow : Leads (readText path) s (.error fault.message) s := by
    have hbytes := Disk.leads_readBytes hread hplan
    refine Machine.leads_bind_error.mpr (.inr ⟨old, s, hbytes, ?_⟩)
    simp only [hdecode]
    exact Machine.leads_throw.mpr ⟨rfl, rfl⟩
  refine Machine.leads_bind_error.mpr (.inr ⟨true, s, hfile, ?_⟩)
  rw [if_pos rfl]
  exact Machine.leads_bind_error.mpr (.inl hthrow)

/-! ### The write after the look -/

/-- **A file that spells the text is left alone**, whatever line breaks it has. -/
theorem leads_write_of_decode (hplan : s.plan = []) (hread : s.disk.read path = .ok old)
    (hdecode : Utf8.decode old = .ok t) (htext : t.unifyLineBreaks = text) :
    Leads (write path text) s (.ok false) s :=
  Disk.Stores.leads_write ⟨old, t, hread, hdecode, htext⟩ hplan

/-- **A file whose bytes are not well formed** is not written. -/
theorem leads_write_of_malformed {fault : Utf8.MalformedBytes} (hplan : s.plan = [])
    (hread : s.disk.read path = .ok old) (hdecode : Utf8.decode old = .error fault) (text : Text) :
    Leads (write path text) s (.error (.artifactWriteFailed path.toText fault.message)) s :=
  leads_write_error_iff.mpr ⟨_, rfl, .inl (leads_holds_of_malformed hplan hread hdecode text)⟩

/-- **Every operation succeeds** that the write of an artifact asks for: none is planned to fail,
and where the artifact is to be replaced, it can be. -/
structure Unhindered (path : DiskPath) (text : Text) (s : Machine) : Prop where
  plan : s.plan = []
  replaced : ∀ t, Leads (holds path text) s (.ok false) t →
    ∃ t', Leads (replaceText path text) t (.ok ()) t'

/-- **The write brings the artifact to given bytes**: it goes through, the artifact has the bytes
afterwards, and it is left alone only if it had them before. -/
def BringsTo (path : DiskPath) (text : Text) (s : Machine) (bytes : Bytes) : Prop :=
  ∃ written s', Leads (write path text) s (.ok written) s' ∧ s'.disk.read path = .ok bytes ∧
    (written = false → s.disk.read path = .ok bytes)

theorem read_of_leads_replaceText (hbytes : Utf8.encode text = .ok bytes)
    (h : Leads (replaceText path text) s (.ok ()) s') : s'.disk.read path = .ok bytes := by
  obtain ⟨e, given, q, hgiven, hq, -, hputs⟩ := leads_replaceText_ok (fun _ => False) h
  obtain rfl : given = bytes := Except.ok.inj (hgiven.symm.trans hbytes)
  obtain ⟨changed, hfile⟩ := hputs.file
  refine Disk.read_eq_ok.mpr ⟨q, hq, ?_⟩
  unfold Disk.file?
  rw [hfile]

theorem bringsTo_of_not_holds (h : Unhindered path text s) (hbytes : Utf8.encode text = .ok bytes)
    (hlook : Leads (holds path text) s (.ok false) s) : BringsTo path text s bytes := by
  obtain ⟨s', hreplace⟩ := h.replaced s hlook
  have hwrite := leads_write_ok_true.mpr ⟨s, hlook, hreplace⟩
  exact ⟨true, s', hwrite, read_of_leads_replaceText hbytes hreplace, nofun⟩

theorem bringsTo_iff_of_decode (hplan : s.plan = []) (hread : s.disk.read path = .ok old)
    (hdecode : Utf8.decode old = .ok t) (htext : t.unifyLineBreaks = text)
    (hbytes : Utf8.encode text = .ok bytes) : BringsTo path text s bytes ↔ t = text := by
  have hwrite := leads_write_of_decode hplan hread hdecode htext
  constructor
  · rintro ⟨written, s', hleads, hread', -⟩
    obtain ⟨-, rfl⟩ := hleads.unique hwrite
    have hsame : old = bytes := Except.ok.inj (hread.symm.trans hread')
    rw [hsame, Utf8.decode_encode hbytes] at hdecode
    exact (Except.ok.inj hdecode).symm
  · rintro rfl
    have hsame : bytes = old := Except.ok.inj (hbytes.symm.trans (Utf8.encode_decode hdecode))
    rw [hsame]
    exact ⟨false, s, hwrite, hread, fun _ => hread⟩

/-- **When the write of an artifact agrees with a write without the look.** The latter always gives
the file the bytes of the text. The former does so exactly if there is no file, or the file is well
formed and differs from the text in more than its line breaks, if it differs at all. -/
theorem bringsTo_iff (h : Unhindered path text s) (hbytes : Utf8.encode text = .ok bytes) :
    (∀ always, Leads (replaceText path text) s (.ok ()) always →
      always.disk.read path = .ok bytes) ∧
    (BringsTo path text s bytes ↔ ∀ old, s.disk.read path = .ok old →
      ∃ t, Utf8.decode old = .ok t ∧ (t.unifyLineBreaks = text → t = text)) := by
  refine ⟨fun always => read_of_leads_replaceText hbytes, ?_⟩
  cases hfile : s.disk.isFile path with
  | false =>
    have hlook := leads_holds_of_not_isFile h.plan hfile text
    refine iff_of_true (bringsTo_of_not_holds h hbytes hlook) fun old hread => ?_
    have hthere : s.disk.isFile path = true := Disk.isFile_iff.mpr ⟨old, hread⟩
    cases hfile.symm.trans hthere
  | true =>
    obtain ⟨old, hread⟩ := Disk.isFile_iff.mp hfile
    have hold : ∀ other, s.disk.read path = .ok other → other = old :=
      fun other hother => Except.ok.inj (hother.symm.trans hread)
    cases hdecode : Utf8.decode old with
    | error fault =>
      have hfail := leads_write_of_malformed h.plan hread hdecode text
      refine iff_of_false ?_ fun hall => ?_
      · rintro ⟨_, _, hleads, -⟩
        cases (hleads.unique hfail).1
      · obtain ⟨t, ht, -⟩ := hall old hread
        cases hdecode.symm.trans ht
    | ok t =>
      have hcondition : (∀ old, s.disk.read path = .ok old → ∃ t, Utf8.decode old = .ok t ∧
          (t.unifyLineBreaks = text → t = text)) ↔ (t.unifyLineBreaks = text → t = text) := by
        constructor
        · intro hall
          obtain ⟨t', ht', himp⟩ := hall old hread
          obtain rfl : t' = t := Except.ok.inj (ht'.symm.trans hdecode)
          exact himp
        · intro himp other hother
          rw [hold other hother]
          exact ⟨t, hdecode, himp⟩
      rw [hcondition]
      by_cases htext : t.unifyLineBreaks = text
      · rw [bringsTo_iff_of_decode h.plan hread hdecode htext hbytes]
        exact ⟨fun hsame _ => hsame, fun himp => himp htext⟩
      · have hlook := Disk.leads_holds_of_decode hread hdecode h.plan text
        rw [decide_eq_false htext] at hlook
        exact iff_of_true (bringsTo_of_not_holds h hbytes hlook) fun heq => absurd heq htext

/-! ### A file in place of the artifact -/

/-- A machine with a file `a.js`. -/
def heldMachine (old : Bytes) : Machine :=
  { disk := { nodes := [(["a.js"], .file old 0)], time := 1 } }

theorem exists_leads_replaceText_held (old : Bytes) : ∃ always,
    Leads (replaceText ⟨.here, ["a.js"]⟩ "a\nb") (heldMachine old) (.ok ()) always := by
  have hlist : (heldMachine old).disk.list ⟨.here, []⟩ = .ok ["a.js"] := rfl
  have hcreate : (heldMachine old).disk.createTemporary ⟨.here, []⟩ "a.js" =
      .ok (⟨.here, [".a.js.0.tmp"]⟩, (heldMachine old).disk.withFile [".a.js.0.tmp"] []) := by
    unfold Disk.createTemporary
    rw [hlist]
    rfl
  exact ⟨_, leads_replaceText_of_eq_ok rfl hcreate rfl rfl rfl⟩

theorem unhindered_held (old : Bytes) :
    Unhindered ⟨.here, ["a.js"]⟩ "a\nb" (heldMachine old) where
  plan := rfl
  replaced := by
    intro t hlook
    have hread : (heldMachine old).disk.read ⟨.here, ["a.js"]⟩ = .ok old := rfl
    have hsame : t = heldMachine old := by
      cases hdecode : Utf8.decode old with
      | error fault =>
        cases (hlook.unique (leads_holds_of_malformed rfl hread hdecode _)).1
      | ok u => exact (hlook.unique (Disk.leads_holds_of_decode hread hdecode rfl _)).2
    rw [hsame]
    exact exists_leads_replaceText_held old

/-- A file of one letter is brought to the text. -/
theorem bringsTo_iff_letter : Unhindered ⟨.here, ["a.js"]⟩ "a\nb" (heldMachine [0x6F]) ∧
    (∀ always, Leads (replaceText ⟨.here, ["a.js"]⟩ "a\nb") (heldMachine [0x6F]) (.ok ()) always →
      always.disk.read ⟨.here, ["a.js"]⟩ = .ok [0x61, 0x0A, 0x62]) ∧
    BringsTo ⟨.here, ["a.js"]⟩ "a\nb" (heldMachine [0x6F]) [0x61, 0x0A, 0x62] := by
  have h := unhindered_held [0x6F]
  obtain ⟨halways, hbrings⟩ := bringsTo_iff h (by rfl : Utf8.encode "a\nb" = .ok [0x61, 0x0A, 0x62])
  refine ⟨h, halways, hbrings.mpr ?_⟩
  rintro old ⟨⟩
  exact ⟨"o", rfl, by decide⟩

/-- **A file is not brought to the text**, although it could be replaced: one with a carriage return
before the line feed is left alone, and one with a byte that begins no character makes the write
fail. -/
theorem not_bringsTo_held : Utf8.encode "a\nb" = .ok [0x61, 0x0A, 0x62] ∧
    ∀ old ∈ [[0x61, 0x0D, 0x0A, 0x62], [0xFF]],
      Unhindered ⟨.here, ["a.js"]⟩ "a\nb" (heldMachine old) ∧
      (∃ always, Leads (replaceText ⟨.here, ["a.js"]⟩ "a\nb") (heldMachine old) (.ok ()) always) ∧
      ¬ BringsTo ⟨.here, ["a.js"]⟩ "a\nb" (heldMachine old) [0x61, 0x0A, 0x62] := by
  have hencode : Utf8.encode "a\nb" = .ok [0x61, 0x0A, 0x62] := rfl
  refine ⟨hencode, fun old hold => ⟨unhindered_held old, exists_leads_replaceText_held old, ?_⟩⟩
  simp only [List.mem_cons, List.not_mem_nil, or_false] at hold
  rcases hold with rfl | rfl
  · have hdecode : Utf8.decode [0x61, 0x0D, 0x0A, 0x62] = .ok "a\r\nb" := rfl
    have hsame : Text.unifyLineBreaks "a\r\nb" = "a\nb" := by decide
    intro hbrings
    have htext := (bringsTo_iff_of_decode rfl rfl hdecode hsame hencode).mp hbrings
    exact absurd htext (by decide)
  · have hdecode : Utf8.decode [0xFF] = .error ⟨.invalidStart, 0xFF, 0, 1⟩ := rfl
    rintro ⟨_, _, hleads, -⟩
    cases (hleads.unique (leads_write_of_malformed rfl rfl hdecode _)).1

end Artifact

end Phrasebook
