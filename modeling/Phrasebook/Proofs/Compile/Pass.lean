import Phrasebook.Compile.Pass
import Phrasebook.Proofs.Artifact.Encoding
import Phrasebook.Proofs.Disk.Artifact
import Phrasebook.Proofs.Document.Loading

/-! # What a compile that fails leaves

A compile reads everything before it writes anything, and each artifact is replaced in one go. So a
compile that fails leaves every file as it is, unless it fails at the second artifact when the first
has been put in its place: then one is new and the other is not (`stays_or_halfWritten`). Where
temporary files could not be removed they are left behind. -/

namespace Phrasebook

open Machine (Leads)

/-! ### Notices -/

theorem Host.run_tellAll (notices : List Notice) (s : Machine) :
    ((tellAll (m := StateM Machine) notices).run s).run =
      ((), { s with notices := s.notices ++ notices }) := by
  induction notices generalizing s with
  | nil =>
    rw [List.append_nil]
    rfl
  | cons n rest ih =>
    refine (ih _).trans ?_
    rw [List.append_assoc]
    rfl

/-- A stage that touches no file tells its notices. -/
theorem Host.leads_report {ε α : Type} {report : Report ε α} {s s' : Machine} {r : Except ε α} :
    Leads (Host.report report) s r s' ↔
      r = report.outcome ∧ s' = { s with notices := s.notices ++ report.notices } := by
  have htell : ∀ t, Leads (ε := ε) (ExceptT.lift (tellAll (m := StateM Machine) report.notices)) s
      (.ok ()) t ↔ t = { s with notices := s.notices ++ report.notices } := by
    intro t
    rw [Machine.leads_lift, Host.run_tellAll]
    simp [eq_comm]
  constructor
  · intro h
    rcases Machine.leads_bind.mp h with ⟨_, t, hlift, hrest⟩ | ⟨_, -, hlift⟩
    · obtain ⟨rfl, rfl⟩ := Machine.leads_outcome.mp hrest
      exact ⟨rfl, (htell _).mp hlift⟩
    · exact absurd hlift Machine.not_leads_lift_error
  · rintro ⟨rfl, rfl⟩
    exact Machine.leads_bind.mpr (.inl ⟨(), _, (htell _).mpr rfl, Machine.leads_outcome.mpr ⟨rfl, rfl⟩⟩)

/-! ### Writing -/

namespace Compile

variable {s s' : Machine} {selfNames : Locale.SelfNames}

theorem leads_needed {given : Given Text} {r : Except Fault Text}
    (h : Leads (needed given) s r s') : s' = s ∧ ∀ t, r = .ok t → given = .value t := by
  obtain ⟨hr, hmachine⟩ := Machine.leads_outcome.mp h
  refine ⟨hmachine, fun t ht => ?_⟩
  rw [ht] at hr
  cases given with
  | value t' => exact congrArg Given.value (Except.ok.inj hr).symm
  | blank => cases hr

theorem leads_needed_iff {given : Given Text} {path : Text} (h : given = .value path)
    {r : Except Fault Text} : Leads (needed given) s r s' ↔ r = .ok path ∧ s = s' := by
  subst h
  exact Machine.leads_outcome.trans (and_congr_right fun _ => eq_comm)

/-- The step for one artifact writes it; what it tells changes nothing. -/
theorem exists_leads_write {path text : Text} {u : Unit}
    (h : Leads (writeArtifact path text) s (.ok u) s') : ∃ written t,
      Leads (Artifact.write (.ofText path) text) s (.ok written) t ∧ s'.disk = t.disk := by
  obtain ⟨written, t, hwrite, htell⟩ := Machine.leads_bind_ok.mp h
  obtain ⟨_, -, hrun⟩ := Machine.leads_lift.mp htell
  exact ⟨written, t, Machine.leads_adapt_ok.mp hwrite, congrArg (·.2.disk) hrun.symm⟩

theorem leads_writeArtifact_ok {path text : Text} {u : Unit}
    (h : Leads (writeArtifact path text) s (.ok u) s') :
    s'.disk = s.disk ∨ ∃ e bytes q, Utf8.encode text = .ok bytes ∧
      s'.disk.locate (.ofText path) = .ok q ∧
      s.disk.Grows (Disk.IsTemporary (DiskPath.ofText path).name) e ∧ e.Puts q bytes s'.disk := by
  obtain ⟨written, t, hwrite, hdisk⟩ := exists_leads_write h
  rw [hdisk]
  exact Artifact.leads_write_ok _ hwrite

theorem leads_writeArtifact_error {path text : Text} {fault : Fault}
    (h : Leads (writeArtifact path text) s (.error fault) s') :
    (∃ reason, fault = .problem (.artifactWriteFailed (DiskPath.ofText path).toText reason)) ∧
      s.disk.Grows (Disk.IsTemporary (DiskPath.ofText path).name) s'.disk := by
  rcases Machine.leads_bind_error.mp h with hwrite | ⟨_, t, -, htell⟩
  · obtain ⟨problem, rfl, hbare⟩ := Machine.leads_adapt_error.mp hwrite
    obtain ⟨⟨reason, rfl⟩, hgrows⟩ := Artifact.leads_write_error hbare
    exact ⟨⟨reason, rfl⟩, hgrows⟩
  · exact absurd htell Machine.not_leads_lift_error

/-- The places at which a compile may leave temporary files. -/
def IsSpare (options : Options) (q : Place) : Prop :=
  ∃ path : Text, (options.dataPath = .value path ∨ options.typesPath = .value path) ∧
    Disk.IsTemporary (DiskPath.ofText path).name q

/-- **The data module is in its place and the declaration module is not**: the second artifact could
not be written, and every file but the first artifact stays. -/
def HalfWritten (options : Options) (modules : Modules) (d e : Disk) (fault : Fault) : Prop :=
  ∃ dataPath typesPath bytes place reason,
    options.dataPath = .value dataPath ∧ options.typesPath = .value typesPath ∧
    fault = .problem (.artifactWriteFailed (DiskPath.ofText typesPath).toText reason) ∧
    Utf8.encode modules.dataModule = .ok bytes ∧ e.locate (.ofText dataPath) = .ok place ∧
    e.file? place = some bytes ∧ ∀ q, q ≠ place → d.Stays (IsSpare options) e q

section Failure
variable {modules : Modules} {options : Options} {fault : Fault}

theorem stays_or_halfWritten_writeArtifacts {dataPath typesPath : Text}
    (hdata : options.dataPath = .value dataPath) (htypes : options.typesPath = .value typesPath)
    (h : Leads (do
      writeArtifact dataPath modules.dataModule
      writeArtifact typesPath modules.typesModule) s (.error fault) s') :
    s.disk.DirectoriesStay s'.disk ∧
      ((∀ q, s.disk.Stays (IsSpare options) s'.disk q) ∨
        HalfWritten options modules s.disk s'.disk fault) := by
  have hspare : ∀ q, Disk.IsTemporary (DiskPath.ofText dataPath).name q → IsSpare options q :=
    fun q hq => ⟨dataPath, .inl hdata, hq⟩
  have hspare' : ∀ q, Disk.IsTemporary (DiskPath.ofText typesPath).name q → IsSpare options q :=
    fun q hq => ⟨typesPath, .inr htypes, hq⟩
  rcases Machine.leads_bind_error.mp h with hfirst | ⟨_, t, hfirst, hsecond⟩
  · have hgrows := (leads_writeArtifact_error hfirst).2.mono hspare
    exact ⟨hgrows.directoriesStay, .inl fun q => (hgrows.growsAt q).stays⟩
  -- The first artifact is done with, so it is the second that fails.
  obtain ⟨⟨reason, hfault⟩, hafter⟩ := leads_writeArtifact_error hsecond
  have hafter := hafter.mono hspare'
  rcases leads_writeArtifact_ok hfirst with
    hdisk | ⟨e, bytes, place, hbytes, hplace, hbefore, hputs⟩
  · rw [← hdisk]
    exact ⟨hafter.directoriesStay, .inl fun q => (hafter.growsAt q).stays⟩
  · have hbefore := hbefore.mono hspare
    refine ⟨(hbefore.directoriesStay.trans hputs.directoriesStay).trans hafter.directoriesStay,
      .inr ⟨dataPath, typesPath, bytes, place, reason, hdata, htypes, hfault, hbytes,
        hafter.directoriesStay.locate hplace, hputs.file?_grows hafter, fun q hq => ?_⟩⟩
    exact (((hbefore.growsAt q).trans (hputs.growsAt hq)).trans (hafter.growsAt q)).stays

theorem stays_or_halfWritten_writeModules
    (h : Leads (writeModules modules options) s (.error fault) s') :
    s.disk.DirectoriesStay s'.disk ∧
      ((∀ q, s.disk.Stays (IsSpare options) s'.disk q) ∨
        HalfWritten options modules s.disk s'.disk fault) := by
  have hsame : s.disk.DirectoriesStay s.disk ∧
      ((∀ q, s.disk.Stays (IsSpare options) s.disk q) ∨
        HalfWritten options modules s.disk s.disk fault) :=
    ⟨.refl _, .inl fun _ => .inl rfl⟩
  rcases Machine.leads_bind_error.mp h with hfirst | ⟨dataPath, _, hfirst, hrest⟩
  · rw [(leads_needed hfirst).1]
    exact hsame
  obtain ⟨rfl, hdata⟩ := leads_needed hfirst
  rcases Machine.leads_bind_error.mp hrest with hsecond | ⟨typesPath, _, hsecond, hwrite⟩
  · rw [(leads_needed hsecond).1]
    exact hsame
  obtain ⟨rfl, htypes⟩ := leads_needed hsecond
  exact stays_or_halfWritten_writeArtifacts (hdata _ rfl) (htypes _ rfl) hwrite

/-- **A compile fails before it writes**, when the disk is as it was, or it fails while it writes the
modules that it generated. -/
theorem leads_run_error {compiler : Compiler}
    (h : Leads (run selfNames options compiler) s (.error fault) s') : s'.disk = s.disk ∨
      ∃ directory documents t modules u, options.languageDirectory = .value directory ∧
        Leads (Document.loadAll (.ofText directory)) s (.ok documents) t ∧
        (generate selfNames compiler documents options.defaultLocale options.moduleAlias none
          directory).outcome = .ok modules ∧
        u.disk = s.disk ∧ Leads (writeModules modules options) u (.error fault) s' := by
  rcases Machine.leads_bind_error.mp h with hclock | ⟨_, _, hclock, hpass⟩
  · exact absurd hclock Machine.not_leads_lift_error
  obtain ⟨_, -, ⟨⟩⟩ := Machine.leads_lift.mp hclock
  rcases Machine.leads_bind_error.mp hpass with hneeded | ⟨directory, _, hneeded, hread⟩
  · exact .inl (congrArg Machine.disk (leads_needed hneeded).1)
  obtain ⟨rfl, hdirectory⟩ := leads_needed hneeded
  rcases Machine.leads_bind_error.mp hread with hload | ⟨documents, t, hload, hmake⟩
  · exact .inl (Document.keeps_loadAll _ _ _ _ hload).symm
  have hdisk := Document.keeps_loadAll _ _ _ _ hload
  rcases Machine.leads_bind_error.mp hmake with hreport | ⟨modules, u, hreport, hfinish⟩
  · rw [(Host.leads_report.mp hreport).2]
    exact .inl hdisk.symm
  obtain ⟨hmodules, hreported⟩ := Host.leads_report.mp hreport
  rcases Machine.leads_bind_error.mp hfinish with hwrite | ⟨_, v, -, htold⟩
  · exact .inr ⟨directory, documents, t, modules, u, hdirectory _ rfl, hload, hmodules.symm,
      (congrArg Machine.disk hreported).trans hdisk.symm, hwrite⟩
  -- Once the artifacts are written, nothing can fail.
  rcases Machine.leads_bind_error.mp htold with hclock | ⟨_, w, -, hlast⟩
  · exact absurd hclock Machine.not_leads_lift_error
  rcases Machine.leads_bind_error.mp hlast with htell | ⟨_, x, -, hpure⟩
  · exact absurd htell Machine.not_leads_lift_error
  · cases (Machine.leads_pure.mp hpure).1

end Failure

/-- **What a compile that fails leaves.** Every path leads to where it led, and every file stays as it
is; or the modules were generated, the data module is in its place and the declaration module could
not be written. -/
theorem stays_or_halfWritten {options : Options} {compiler : Compiler} {fault : Fault}
    (h : Leads (run selfNames options compiler) s (.error fault) s') :
    (∀ path place, s.disk.locate path = .ok place → s'.disk.locate path = .ok place) ∧
      ((∀ q, s.disk.Stays (IsSpare options) s'.disk q) ∨
        ∃ directory documents t modules, options.languageDirectory = .value directory ∧
          Leads (Document.loadAll (.ofText directory)) s (.ok documents) t ∧
          (generate selfNames compiler documents options.defaultLocale options.moduleAlias none
            directory).outcome = .ok modules ∧
          HalfWritten options modules s.disk s'.disk fault) := by
  rcases leads_run_error h with
    hdisk | ⟨directory, documents, t, modules, u, hdirectory, hload, hmodules, hdisk, hwrite⟩
  · rw [hdisk]
    exact ⟨fun _ _ => id, .inl fun _ => .inl rfl⟩
  · obtain ⟨hstay, hfiles⟩ := stays_or_halfWritten_writeModules hwrite
    rw [hdisk] at hstay hfiles
    exact ⟨fun _ _ => hstay.locate, hfiles.imp_right fun hhalf =>
      ⟨directory, documents, t, modules, hdirectory, hload, hmodules, hhalf⟩⟩

/-- A disk with a document without texts, and a file where a directory is needed. -/
def blockedDisk : Disk where
  nodes := [(["lang"], .directory), (["lang", "en.json"], .file [0x7B, 0x7D] 0),
    (["types"], .file [] 0)]

/-- Options under which the declaration module goes below the file. -/
def blockedOptions : Options where
  defaultLocale := "en"
  languageDirectory := .value "lang"
  dataPath := .value "lang.js"
  typesPath := .value "types/lang.d.ts"
  moduleAlias := .value Modules.usualAlias
  debounce := .int 0
  defaultLocale_ne_nil := by decide
  debounce_nonneg := rfl

/-- The self-name of the locale of the document. -/
def blockedNames : Locale.SelfNames := .ofTable [("en", "English")]

/-- The listing of the directory is refused. -/
theorem stays_or_halfWritten_refused :
    let s : Machine := { disk := blockedDisk, plan := [some .busy] }
    ∃ fault s', Leads (run blockedNames blockedOptions) s (.error fault) s' ∧
      (∀ path place, s.disk.locate path = .ok place → s'.disk.locate path = .ok place) ∧
      ((∀ q, s.disk.Stays (IsSpare blockedOptions) s'.disk q) ∨
        ∃ directory documents t modules, blockedOptions.languageDirectory = .value directory ∧
          Leads (Document.loadAll (.ofText directory)) s (.ok documents) t ∧
          (generate blockedNames Template.compiler documents blockedOptions.defaultLocale
            blockedOptions.moduleAlias none directory).outcome = .ok modules ∧
          HalfWritten blockedOptions modules s.disk s'.disk fault) := by
  intro s
  have hrun : Leads (run blockedNames blockedOptions) s (.error (.problem
      (.documentUnreadable "lang" "Device or resource busy"))) { disk := blockedDisk } := rfl
  exact ⟨_, _, hrun, stays_or_halfWritten hrun⟩

/-! ### An artifact that cannot be written -/

/-- The document of the disk. -/
def blockedDocument : Document := { locale := "en", tree := .map [], source := "lang/en.json" }

theorem leads_load_blocked : Leads (Document.loadAll (.ofText "lang")) { disk := blockedDisk }
    (.ok [blockedDocument])
    { disk := blockedDisk, notices := [.documentLoaded "lang/en.json"] } := by
  have hdecode : Document.decode (α := Foreign) "\x7b\x7d" "lang/en.json" = .ok (.map []) := by
    cbv
  have hload : Leads (Document.load (.ofText "lang/en.json")) { disk := blockedDisk }
      (.ok blockedDocument)
      { disk := blockedDisk, notices := [.documentLoaded "lang/en.json"] } := by
    refine Machine.leads_bind_ok.mpr ⟨"\x7b\x7d", { disk := blockedDisk }, rfl, ?_⟩
    exact Machine.leads_bind_ok.mpr
      ⟨.map [], _, Machine.leads_outcome.mpr ⟨hdecode.symm, rfl⟩, rfl⟩
  refine Machine.leads_bind_ok.mpr ⟨[.ofText "lang/en.json"], { disk := blockedDisk }, rfl, ?_⟩
  refine Machine.leads_bind_ok.mpr ⟨[.ok blockedDocument], _, ?_, rfl⟩
  exact Machine.leads_lift.mpr ⟨_, rfl, Document.run_attemptAll_cons hload []⟩

theorem generate_eq_ok {compiler : Compiler} {documents : List Document} {c : Catalogue}
    {defaultLocale source : Text} (hcheck : checkDocuments documents defaultLocale source = .ok ())
    (hmerge : (Catalogue.merge compiler documents).outcome = .ok c) (moduleAlias : Given Text) :
    ∃ modules names,
      (generate selfNames compiler documents defaultLocale moduleAlias none source).outcome =
          .ok modules ∧
        modules.dataModule = (Modules.dataCode c defaultLocale names).render := by
  unfold generate
  simp only [Report.outcome_bind, hcheck, hmerge]
  exact ⟨_, _, rfl, rfl⟩

theorem generate_blocked : ∃ modules bytes,
    (generate blockedNames Template.compiler [blockedDocument] blockedOptions.defaultLocale
      blockedOptions.moduleAlias none "lang").outcome = .ok modules ∧
    Utf8.encode modules.dataModule = .ok bytes := by
  have hok : (Catalogue.merge Template.compiler [blockedDocument]).outcome.isOk = true := by cbv
  obtain ⟨c, hc⟩ := Except.exists_eq_ok hok
  obtain ⟨modules, names, hmodules, hdata⟩ := generate_eq_ok
    (by rfl : checkDocuments [blockedDocument] blockedOptions.defaultLocale "lang" = .ok ()) hc
    blockedOptions.moduleAlias
  have hcontents := Catalogue.contents_addDocuments (Catalogue.merge_eq_ok.mp hc)
  have hplain : ∀ p, HasText [blockedDocument] p →
      p.SurrogatesHave fun c => c.isSurrogate = false := by
    rintro p ⟨d, hd, t, hat⟩
    cases List.mem_singleton.mp hd
    generalize p.segments = steps at hat
    cases hat with
    | entry hentry _ => cases hentry
  obtain ⟨bytes, hbytes⟩ := Utf8.exists_encode_iff.mpr
    ((hcontents.all_dataCode_iff lenient_isSurrogate _ names).mpr hplain)
  exact ⟨modules, bytes, hmodules, hdata ▸ hbytes⟩

section Run
variable {options : Options} {compiler : Compiler} {directory : Text} {documents : List Document}
  {modules : Modules} {t u : Machine}

theorem leads_run_of_generate {r : Except Fault Modules}
    (hdirectory : options.languageDirectory = .value directory)
    (hload : Leads (Document.loadAll (.ofText directory)) s (.ok documents) t)
    (hmodules : (generate selfNames compiler documents options.defaultLocale
      options.moduleAlias none directory).outcome = .ok modules)
    (hfinish : Leads (do
        writeModules modules options
        let ended ← ExceptT.lift Host.clock
        ExceptT.lift (Host.tell (.compiled modules.locales (milliseconds ended)))
        return modules)
      { t with notices := t.notices ++ (generate selfNames compiler documents options.defaultLocale
        options.moduleAlias none directory).notices } r u) :
    Leads (run selfNames options compiler) s r u := by
  refine Machine.leads_bind.mpr (.inl ⟨0, s, Machine.leads_lift.mpr ⟨_, rfl, rfl⟩, ?_⟩)
  refine Machine.leads_bind.mpr (.inl ⟨_, s, (leads_needed_iff hdirectory).mpr ⟨rfl, rfl⟩, ?_⟩)
  refine Machine.leads_bind.mpr (.inl ⟨documents, t, hload, ?_⟩)
  exact Machine.leads_bind.mpr
    (.inl ⟨modules, _, Host.leads_report.mpr ⟨hmodules.symm, rfl⟩, hfinish⟩)

theorem leads_run_of_writes {fault : Fault} {dataPath typesPath : Text}
    (hdirectory : options.languageDirectory = .value directory)
    (hdata : options.dataPath = .value dataPath) (htypes : options.typesPath = .value typesPath)
    (hload : Leads (Document.loadAll (.ofText directory)) s (.ok documents) t)
    (hmodules : (generate selfNames compiler documents options.defaultLocale
      options.moduleAlias none directory).outcome = .ok modules)
    (hfirst : ∀ notices, ∃ told, Leads (writeArtifact dataPath modules.dataModule)
      { t with notices } (.ok ()) { u with notices := told })
    (hsecond : ∀ notices, Leads (writeArtifact typesPath modules.typesModule)
      { u with notices } (.error fault) { u with notices }) :
    ∃ notices, Leads (run selfNames options compiler) s (.error fault) { u with notices } := by
  obtain ⟨told, hfirst⟩ := hfirst
    (t.notices ++ (generate selfNames compiler documents options.defaultLocale
      options.moduleAlias none directory).notices)
  refine ⟨told, leads_run_of_generate hdirectory hload hmodules
    (Machine.leads_bind_error.mpr (.inl ?_))⟩
  refine Machine.leads_bind_error.mpr (.inr ⟨_, _, (leads_needed_iff hdata).mpr ⟨rfl, rfl⟩, ?_⟩)
  refine Machine.leads_bind_error.mpr (.inr ⟨_, _, (leads_needed_iff htypes).mpr ⟨rfl, rfl⟩, ?_⟩)
  exact Machine.leads_bind_error.mpr (.inr ⟨_, _, hfirst, hsecond told⟩)

end Run

/-- **An artifact is created** where there is no file and its directory is there. -/
theorem leads_writeArtifact_new {path text : Text} {bytes : Bytes} {temporary : DiskPath}
    {d held written e : Disk} {notices : List Notice} (hfile : d.isFile (.ofText path) = false)
    (hparent : Leads (Host.makeDirectories (DiskPath.ofText path).parent) { disk := d, notices }
      (.ok ()) { disk := d, notices })
    (hcreate : d.createTemporary (DiskPath.ofText path).parent (DiskPath.ofText path).name =
      .ok (temporary, held))
    (hbytes : Utf8.encode text = .ok bytes) (hwrite : held.write temporary bytes = .ok written)
    (hreplace : written.replace temporary (.ofText path) = .ok e) :
    Leads (writeArtifact path text) { disk := d, notices } (.ok ())
      { disk := e, notices := notices ++ [.artifactWritten (DiskPath.ofText path).toText] } := by
  have htemporary : Leads (Artifact.replaceText (.ofText path) text) { disk := d, notices } (.ok ())
      { disk := e, notices } :=
    Artifact.leads_replaceText_of_eq_ok hparent hcreate hbytes hwrite hreplace
  have hholds : Leads (Artifact.holds (.ofText path) text) { disk := d, notices } (.ok false)
      { disk := d, notices } := by
    refine Machine.leads_bind_ok.mpr ⟨false, _, Machine.leads_adapt_ok.mpr
      (Machine.leads_ask_of_eq_ok (congrArg Except.ok hfile) rfl), ?_⟩
    exact Machine.leads_pure.mpr ⟨rfl, rfl⟩
  refine Machine.leads_bind_ok.mpr ⟨true, { disk := e, notices },
    Machine.leads_adapt_ok.mpr (Machine.leads_adapt_ok.mpr ?_), rfl⟩
  refine Machine.leads_bind_ok.mpr ⟨false, _, hholds, ?_⟩
  exact Machine.leads_bind_ok.mpr ⟨(), _, htemporary, rfl⟩

/-- The disk on which the data module is written and the declaration module is not. -/
def halfWrittenDisk (bytes : Bytes) : Disk :=
  { nodes := blockedDisk.nodes.put ["lang.js"] (.file bytes 1), time := 2 }

section Blocked
variable {text : Text} (notices : List Notice)

theorem leads_writeArtifact_data {bytes : Bytes} (h : Utf8.encode text = .ok bytes) :
    Leads (writeArtifact "lang.js" text) { disk := blockedDisk, notices } (.ok ())
      { disk := halfWrittenDisk bytes,
        notices := notices ++ [.artifactWritten "lang.js"] } :=
  leads_writeArtifact_new rfl rfl rfl h rfl rfl

theorem leads_writeArtifact_types (bytes : Bytes) :
    Leads (writeArtifact "types/lang.d.ts" text) { disk := halfWrittenDisk bytes, notices }
      (.error (.problem (.artifactWriteFailed "types/lang.d.ts" "File exists")))
      { disk := halfWrittenDisk bytes, notices } := rfl

end Blocked

/-- The declaration module cannot be written, but the data module is there. -/
theorem halfWritten_blocked : ∃ fault s' bytes,
    Leads (run blockedNames blockedOptions) { disk := blockedDisk } (.error fault) s' ∧
    blockedDisk.read (.ofText "lang.js") = .error .noSuchFile ∧
    s'.disk.read (.ofText "lang.js") = .ok bytes := by
  obtain ⟨modules, bytes, hmodules, hbytes⟩ := generate_blocked
  obtain ⟨notices, hrun⟩ := leads_run_of_writes (u := { disk := halfWrittenDisk bytes })
    rfl rfl rfl leads_load_blocked hmodules
    (fun notices => ⟨_, leads_writeArtifact_data notices hbytes⟩)
    (fun notices => leads_writeArtifact_types notices bytes)
  exact ⟨_, _, bytes, hrun, rfl, rfl⟩

end Compile

end Phrasebook
