import Phrasebook.Proofs.Compile.Pass

/-! # A second compile

Generated modules have no carriage returns (`Modules.cr_not_mem_emit`), so they are read back from
their files as they are. A compile that succeeds thus leaves both modules stored, and the documents
as they were, as long as no artifact is one of them. A second compile then generates the same
modules and writes neither of them (`Compile.leads_run_again`). -/

namespace Phrasebook

open Machine (Leads)

/-! ### Carriage returns -/

theorem lenient_ne_cr : Lenient fun c => c ≠ CodePoint.cr :=
  fun _ hc => (Text.isRegular_eq_true.mp hc).2

/-- **Generated modules have no carriage returns**, whatever the documents, the default locale, the
alias and the display names are. -/
theorem Modules.cr_not_mem_emit {documents : List Document} {c : Catalogue}
    (h : (Catalogue.merge Template.compiler documents).outcome = .ok c) {defaultLocale : Text}
    {moduleAlias : Given Text} {names : OrderedMap Text Text} {modules : Modules}
    (hmodules : (emit c defaultLocale moduleAlias names).outcome = .ok modules) :
    CodePoint.cr ∉ modules.dataModule ∧ CodePoint.cr ∉ modules.typesModule := by
  have hcontents := Catalogue.contents_addDocuments (Catalogue.merge_eq_ok.mp h)
  have hdata : Text.All (fun c => c ≠ CodePoint.cr) (dataCode c defaultLocale names).render := by
    refine (hcontents.all_dataCode_iff lenient_ne_cr defaultLocale names).mpr ?_
    rintro p - s - x - hx rfl
    cases hx
  have htypes := Modules.all_typesCode lenient_ne_cr c defaultLocale moduleAlias
  obtain rfl := Except.ok.inj hmodules
  exact ⟨fun hmem => hdata _ hmem rfl, fun hmem => htypes _ hmem rfl⟩

namespace Compile

variable {selfNames : Locale.SelfNames}

theorem exists_emit_of_generate {compiler : Compiler} {documents : List Document}
    {defaultLocale source : Text} {moduleAlias : Given Text}
    {names? : Option (OrderedMap Text Text)} {modules : Modules}
    (h : (generate selfNames compiler documents defaultLocale moduleAlias names? source).outcome =
      .ok modules) :
    ∃ c names, (Catalogue.merge compiler documents).outcome = .ok c ∧
      (Modules.emit c defaultLocale moduleAlias names).outcome = .ok modules := by
  unfold generate at h
  simp only [Report.outcome_bind, Except.bind_eq_ok] at h
  obtain ⟨-, -, c, hmerge, h⟩ := h
  cases names? with
  | none =>
    simp only [Report.outcome_bind, Except.bind_eq_ok] at h
    obtain ⟨names, -, hmodules⟩ := h
    exact ⟨c, names, hmerge, hmodules⟩
  | some names => exact ⟨c, names, hmerge, h⟩

section Run
variable {options : Options} {compiler : Compiler} {directory dataPath typesPath : Text}
  {s s' : Machine} {modules : Modules} {documents : List Document}

/-! ### What a compile that succeeds leaves -/

theorem leads_writeModules_ok (hdata : options.dataPath = .value dataPath)
    (htypes : options.typesPath = .value typesPath) {u : Unit}
    (h : Leads (writeModules modules options) s (.ok u) s') :
    ∃ t t' t'' written written', t'.disk = t.disk ∧ t''.disk = s'.disk ∧
      Leads (Artifact.write (.ofText dataPath) modules.dataModule) s (.ok written) t ∧
      Leads (Artifact.write (.ofText typesPath) modules.typesModule) t' (.ok written') t'' := by
  obtain ⟨_, _, hneeded, hrest⟩ := Machine.leads_bind_ok.mp h
  obtain ⟨⟨⟩, rfl⟩ := (leads_needed_iff hdata).mp hneeded
  obtain ⟨_, _, hneeded, hrest⟩ := Machine.leads_bind_ok.mp hrest
  obtain ⟨⟨⟩, rfl⟩ := (leads_needed_iff htypes).mp hneeded
  obtain ⟨_, t', hfirst, hsecond⟩ := Machine.leads_bind_ok.mp hrest
  obtain ⟨written, t, hfirst, hdisk⟩ := exists_leads_write hfirst
  obtain ⟨written', t'', hsecond, hdisk'⟩ := exists_leads_write hsecond
  exact ⟨t, t', t'', written, written', hdisk, hdisk'.symm, hfirst, hsecond⟩

/-- **A compile that succeeds** has read the documents, generated the modules and written both. -/
theorem leads_run_ok (hdirectory : options.languageDirectory = .value directory)
    (h : Leads (run selfNames options compiler) s (.ok modules) s') :
    ∃ documents t t', Document.AllStored s.disk (.ofText directory) documents ∧
      (generate selfNames compiler documents options.defaultLocale options.moduleAlias none
        directory).outcome = .ok modules ∧
      t.disk = s.disk ∧ Leads (writeModules modules options) t (.ok ()) t' ∧
      s'.disk = t'.disk := by
  obtain ⟨_, _, hclock, hpass⟩ := Machine.leads_bind_ok.mp h
  obtain ⟨_, -, ⟨⟩⟩ := Machine.leads_lift.mp hclock
  obtain ⟨_, _, hneeded, hread⟩ := Machine.leads_bind_ok.mp hpass
  obtain ⟨⟨⟩, rfl⟩ := (leads_needed_iff hdirectory).mp hneeded
  obtain ⟨documents, u, hload, hmake⟩ := Machine.leads_bind_ok.mp hread
  obtain ⟨_, t, hreport, hfinish⟩ := Machine.leads_bind_ok.mp hmake
  obtain ⟨hgenerate, hreported⟩ := Host.leads_report.mp hreport
  obtain ⟨_, t', hwrite, htold⟩ := Machine.leads_bind_ok.mp hfinish
  -- What is done after the artifacts are written changes nothing.
  obtain ⟨_, _, hclock, htold⟩ := Machine.leads_bind_ok.mp htold
  obtain ⟨_, -, ⟨⟩⟩ := Machine.leads_lift.mp hclock
  obtain ⟨_, v, htell, hpure⟩ := Machine.leads_bind_ok.mp htold
  obtain ⟨_, -, hrun⟩ := Machine.leads_lift.mp htell
  obtain ⟨⟨⟩, hend⟩ := Machine.leads_pure.mp hpure
  have hdisk : t.disk = s.disk :=
    (congrArg Machine.disk hreported).trans (Document.keeps_loadAll _ _ _ _ hload).symm
  have hdisk' : s'.disk = t'.disk := by
    rw [hend]
    exact congrArg (·.2.disk) hrun.symm
  exact ⟨documents, t, t', Document.leads_loadAll_ok hload, hgenerate.symm, hdisk, hwrite, hdisk'⟩

theorem leads_run_of_writeModules {t u : Machine}
    (hdirectory : options.languageDirectory = .value directory)
    (hload : Leads (Document.loadAll (.ofText directory)) s (.ok documents) t)
    (hmodules : (generate selfNames compiler documents options.defaultLocale options.moduleAlias none
      directory).outcome = .ok modules)
    (hwrite : Leads (writeModules modules options)
      { t with notices := t.notices ++ (generate selfNames compiler documents options.defaultLocale
        options.moduleAlias none directory).notices } (.ok ()) u) :
    Leads (run selfNames options compiler) s (.ok modules)
      { u with notices := u.notices ++ [.compiled modules.locales (milliseconds 0)] } := by
  refine leads_run_of_generate hdirectory hload hmodules ?_
  refine Machine.leads_bind_ok.mpr ⟨(), u, hwrite, ?_⟩
  refine Machine.leads_bind_ok.mpr ⟨0, u, Machine.leads_lift.mpr ⟨_, rfl, rfl⟩, ?_⟩
  exact Machine.leads_bind_ok.mpr ⟨(), _, Machine.leads_lift.mpr ⟨_, rfl, rfl⟩,
    Machine.leads_pure.mpr ⟨rfl, rfl⟩⟩

end Run

/-! ### Artifacts that are up to date -/

/-- **The artifacts are up to date**: the disk stores the documents, and in their places the modules
that they generate. -/
structure UpToDate (selfNames : Locale.SelfNames) (options : Options)
    (directory dataPath typesPath : Text) (modules : Modules) (d : Disk) : Prop where
  generated : ∃ documents, Document.AllStored d (.ofText directory) documents ∧
    (generate selfNames Template.compiler documents options.defaultLocale options.moduleAlias none
      directory).outcome = .ok modules
  data : d.Stores (.ofText dataPath) modules.dataModule
  types : d.Stores (.ofText typesPath) modules.typesModule

section UpToDate
variable {options : Options} {directory dataPath typesPath : Text} {s s' : Machine}
  {modules : Modules} (hdirectory : options.languageDirectory = .value directory)
  (hdata : options.dataPath = .value dataPath) (htypes : options.typesPath = .value typesPath)
include hdirectory hdata htypes

/-- **A compile that succeeds leaves the artifacts up to date**, if they are two files and neither of
them is a document. -/
theorem upToDate_of_leads_run (h : Leads (run selfNames options) s (.ok modules) s')
    (hne : s'.disk.locate (.ofText dataPath) ≠ s'.disk.locate (.ofText typesPath))
    (hdataPlace : ¬ Document.IsPlaceIn s'.disk (.ofText directory) (.ofText dataPath))
    (htypesPlace : ¬ Document.IsPlaceIn s'.disk (.ofText directory) (.ofText typesPath)) :
    UpToDate selfNames options directory dataPath typesPath modules s'.disk := by
  obtain ⟨documents, t, t', hdocuments, hgenerate, hbefore, hwrite, hafter⟩ :=
    leads_run_ok hdirectory h
  obtain ⟨u, v, w, _, _, hbetween, hend, hfirst, hsecond⟩ :=
    leads_writeModules_ok hdata htypes hwrite
  obtain ⟨c, names, hmerge, hemit⟩ := exists_emit_of_generate hgenerate
  obtain ⟨hdataCr, htypesCr⟩ := Modules.cr_not_mem_emit hmerge hemit
  have hchanges := Artifact.changesAt_of_leads_write hfirst
  have hchanges' := Artifact.changesAt_of_leads_write hsecond
  have hdataStored := Artifact.stores_of_leads_write hfirst hdataCr
  have htypesStored := Artifact.stores_of_leads_write hsecond htypesCr
  rw [hbefore] at hchanges
  rw [hbetween, hend, ← hafter] at hchanges'
  rw [hend, ← hafter] at htypesStored
  refine ⟨⟨documents, ?_, hgenerate⟩, hdataStored.changesAt hchanges' hne, htypesStored⟩
  refine hdocuments.of_stay (hchanges.directoriesStay.trans hchanges'.directoriesStay) ?_
  intro name hsuffix q hq
  rw [hchanges'.elsewhere q fun htypesQ => htypesPlace ⟨name, q, hsuffix, hq, htypesQ⟩]
  refine hchanges.elsewhere q fun hdataQ => hdataPlace ⟨name, q, hsuffix, hq, ?_⟩
  exact hchanges'.directoriesStay.locate hdataQ

omit hdirectory hdata htypes in
theorem leads_writeArtifact_stored {path text : Text} (hplan : s.plan = [])
    (h : s.disk.Stores (.ofText path) text) : Leads (writeArtifact path text) s (.ok ())
      { s with notices := s.notices ++ [.artifactUnchanged (DiskPath.ofText path).toText] } :=
  Machine.leads_bind_ok.mpr ⟨false, s, Machine.leads_adapt_ok.mpr (h.leads_write hplan),
    Machine.leads_lift.mpr ⟨(), rfl, rfl⟩⟩

omit hdirectory in
theorem leads_writeModules_stored (hplan : s.plan = [])
    (hdataStored : s.disk.Stores (.ofText dataPath) modules.dataModule)
    (htypesStored : s.disk.Stores (.ofText typesPath) modules.typesModule) :
    Leads (writeModules modules options) s (.ok ())
      { s with notices := s.notices ++ [.artifactUnchanged (DiskPath.ofText dataPath).toText] ++
          [.artifactUnchanged (DiskPath.ofText typesPath).toText] } := by
  refine Machine.leads_bind_ok.mpr ⟨_, s, (leads_needed_iff hdata).mpr ⟨rfl, rfl⟩, ?_⟩
  refine Machine.leads_bind_ok.mpr ⟨_, s, (leads_needed_iff htypes).mpr ⟨rfl, rfl⟩, ?_⟩
  refine Machine.leads_bind_ok.mpr ⟨(), _, leads_writeArtifact_stored hplan hdataStored, ?_⟩
  exact leads_writeArtifact_stored hplan htypesStored

/-- **A compile writes nothing where the artifacts are up to date**, and gives the same modules. -/
theorem UpToDate.leads_run
    (h : UpToDate selfNames options directory dataPath typesPath modules s.disk)
    (hplan : s.plan = []) : ∃ told, Leads (run selfNames options) s (.ok modules)
      { s with notices := s.notices ++ told ++
          [.artifactUnchanged (DiskPath.ofText dataPath).toText,
            .artifactUnchanged (DiskPath.ofText typesPath).toText,
            .compiled modules.locales (milliseconds 0)] } := by
  obtain ⟨⟨documents, hdocuments, hmodules⟩, hdataStored, htypesStored⟩ := h
  obtain ⟨told, hload⟩ := hdocuments.leads_loadAll hplan
  refine ⟨told ++ (generate selfNames Template.compiler documents options.defaultLocale
    options.moduleAlias none directory).notices, ?_⟩
  refine (congrArg (Leads _ s _) ?_).mp (leads_run_of_writeModules hdirectory hload hmodules
    (leads_writeModules_stored hdata htypes hplan hdataStored htypesStored))
  simp only [List.append_assoc, List.cons_append, List.nil_append]

end UpToDate

/-- **A second compile writes nothing.** Generated modules have no carriage returns. So once a compile
has succeeded, both artifacts are read back as the modules, if they are two files and neither of them
is a document; and a compile of the same disk generates the same modules, finds both artifacts
unchanged and leaves the disk as it is. -/
theorem leads_run_again :
    (∀ documents c, (Catalogue.merge Template.compiler documents).outcome = .ok c →
      ∀ defaultLocale moduleAlias names modules,
        (Modules.emit c defaultLocale moduleAlias names).outcome = .ok modules →
          CodePoint.cr ∉ modules.dataModule ∧ CodePoint.cr ∉ modules.typesModule) ∧
    ∀ (selfNames : Locale.SelfNames) (options : Options) (directory dataPath typesPath : Text)
      (s s' : Machine) (modules : Modules),
      options.languageDirectory = .value directory →
      options.dataPath = .value dataPath → options.typesPath = .value typesPath →
      Leads (run selfNames options) s (.ok modules) s' →
      s'.disk.locate (.ofText dataPath) ≠ s'.disk.locate (.ofText typesPath) →
      ¬ Document.IsPlaceIn s'.disk (.ofText directory) (.ofText dataPath) →
      ¬ Document.IsPlaceIn s'.disk (.ofText directory) (.ofText typesPath) →
      ∀ again : Machine, again.disk = s'.disk → again.plan = [] →
        Leads (Artifact.readText (.ofText dataPath)) again (.ok modules.dataModule) again ∧
        Leads (Artifact.readText (.ofText typesPath)) again (.ok modules.typesModule) again ∧
        Leads (Artifact.write (.ofText dataPath) modules.dataModule) again (.ok false) again ∧
        Leads (Artifact.write (.ofText typesPath) modules.typesModule) again (.ok false) again ∧
        ∃ told, Leads (run selfNames options) again (.ok modules)
          { again with notices := again.notices ++ told ++
              [.artifactUnchanged (DiskPath.ofText dataPath).toText,
                .artifactUnchanged (DiskPath.ofText typesPath).toText,
                .compiled modules.locales (milliseconds 0)] } := by
  refine ⟨fun documents c hmerge defaultLocale moduleAlias names modules hmodules =>
    Modules.cr_not_mem_emit hmerge hmodules, ?_⟩
  intro selfNames options directory dataPath typesPath s s' modules hdirectory hdata htypes hrun hne
    hdataPlace htypesPlace again hdisk hplan
  have hdone : UpToDate selfNames options directory dataPath typesPath modules again.disk := by
    rw [hdisk]
    exact upToDate_of_leads_run hdirectory hdata htypes hrun hne hdataPlace htypesPlace
  exact ⟨hdone.data.leads_readText hplan, hdone.types.leads_readText hplan,
    hdone.data.leads_write hplan, hdone.types.leads_write hplan,
    hdone.leads_run hdirectory hdata htypes hplan⟩

/-- Options under which both modules go beside the directory of the documents. -/
def besideOptions : Options := { blockedOptions with typesPath := .value "lang.d.ts" }

/-- The disk on which both modules are written. -/
def writtenDisk (dataBytes typesBytes : Bytes) : Disk :=
  { nodes := (halfWrittenDisk dataBytes).nodes.put ["lang.d.ts"] (.file typesBytes 3), time := 4 }

theorem leads_writeModules_beside {modules : Modules} {dataBytes typesBytes : Bytes}
    (hdata : Utf8.encode modules.dataModule = .ok dataBytes)
    (htypes : Utf8.encode modules.typesModule = .ok typesBytes) (notices : List Notice) :
    Leads (writeModules modules besideOptions) { disk := blockedDisk, notices } (.ok ())
      { disk := writtenDisk dataBytes typesBytes,
        notices := notices ++ [.artifactWritten "lang.js"] ++ [.artifactWritten "lang.d.ts"] } := by
  refine Machine.leads_bind_ok.mpr ⟨"lang.js", _, (leads_needed_iff rfl).mpr ⟨rfl, rfl⟩, ?_⟩
  refine Machine.leads_bind_ok.mpr ⟨"lang.d.ts", _, (leads_needed_iff rfl).mpr ⟨rfl, rfl⟩, ?_⟩
  refine Machine.leads_bind_ok.mpr ⟨(), _, leads_writeArtifact_data notices hdata, ?_⟩
  let held := (halfWrittenDisk dataBytes).withFile [".lang.d.ts.0.tmp"] []
  have hlist : (halfWrittenDisk dataBytes).list (DiskPath.ofText "lang.d.ts").parent =
    .ok ["lang", "types", "lang.js"] := rfl
  have hcreate : (halfWrittenDisk dataBytes).createTemporary (DiskPath.ofText "lang.d.ts").parent
      (DiskPath.ofText "lang.d.ts").name = .ok (.ofText ".lang.d.ts.0.tmp", held) := by
    unfold Disk.createTemporary
    rw [hlist]
    rfl
  have hwrite : held.write (.ofText ".lang.d.ts.0.tmp") typesBytes =
    .ok (held.withFile [".lang.d.ts.0.tmp"] typesBytes) := rfl
  have hreplace : (held.withFile [".lang.d.ts.0.tmp"] typesBytes).replace
    (.ofText ".lang.d.ts.0.tmp") (.ofText "lang.d.ts") =
      .ok (writtenDisk dataBytes typesBytes) := rfl
  exact leads_writeArtifact_new rfl rfl hcreate htypes hwrite hreplace

theorem exists_leads_run_beside : ∃ modules dataBytes typesBytes notices,
    Leads (run blockedNames besideOptions) { disk := blockedDisk } (.ok modules)
      { disk := writtenDisk dataBytes typesBytes, notices } := by
  obtain ⟨modules, dataBytes, hmodules, hdata⟩ := generate_blocked
  obtain ⟨c, names, -, hemit⟩ := exists_emit_of_generate hmodules
  obtain ⟨typesBytes, htypes⟩ : ∃ bytes, Utf8.encode modules.typesModule = .ok bytes := by
    rw [← Except.ok.inj hemit]
    exact Utf8.exists_encode_iff.mpr (Modules.all_typesCode lenient_isSurrogate c _ _)
  have hgenerate : (generate blockedNames Template.compiler [blockedDocument]
      besideOptions.defaultLocale besideOptions.moduleAlias none "lang").outcome = .ok modules :=
    hmodules
  have hdirectory : besideOptions.languageDirectory = .value "lang" := rfl
  have hwrite := leads_writeModules_beside hdata htypes
  have hrun := leads_run_of_writeModules hdirectory leads_load_blocked hgenerate (hwrite _)
  exact ⟨modules, dataBytes, typesBytes, _, hrun⟩

theorem not_isPlaceIn_written {dataBytes typesBytes : Bytes} {path : DiskPath} {name : Text}
    (h : (writtenDisk dataBytes typesBytes).locate path = .ok [name]) :
    ¬ Document.IsPlaceIn (writtenDisk dataBytes typesBytes) (.ofText "lang") path := by
  rintro ⟨child, q, hsuffix, hchild, hpath⟩
  obtain ⟨place, hplace, -, rfl⟩ :=
    (Disk.locate_child (Document.ne_up_of_suffix hsuffix)).mp hchild
  cases hplace
  rw [h] at hpath
  cases hpath

/-- A document with carriage returns in its locale, its key and its text. -/
def returningDocument : Document :=
  { locale := "e\rn", tree := .map [(.text "\r", .text "\r")], source := "lang/e\rn.json" }

/-- Carriage returns in a document, and a compile that writes both artifacts. -/
theorem leads_run_again_beside :
    (∃ c modules, (Catalogue.merge Template.compiler [returningDocument]).outcome = .ok c ∧
      (Modules.emit c "e\rn" (.value "\r") []).outcome = .ok modules ∧
      CodePoint.cr ∉ modules.dataModule ∧ CodePoint.cr ∉ modules.typesModule) ∧
    ∃ (modules : Modules) (d : Disk) (notices : List Notice),
      Leads (run blockedNames besideOptions) { disk := blockedDisk } (.ok modules)
        { disk := d, notices } ∧
      d.locate (.ofText "lang.js") ≠ d.locate (.ofText "lang.d.ts") ∧
      ¬ Document.IsPlaceIn d (.ofText "lang") (.ofText "lang.js") ∧
      ¬ Document.IsPlaceIn d (.ofText "lang") (.ofText "lang.d.ts") ∧
      Leads (Artifact.readText (.ofText "lang.js")) { disk := d } (.ok modules.dataModule)
        { disk := d } ∧
      Leads (Artifact.readText (.ofText "lang.d.ts")) { disk := d } (.ok modules.typesModule)
        { disk := d } ∧
      Leads (Artifact.write (.ofText "lang.js") modules.dataModule) { disk := d } (.ok false)
        { disk := d } ∧
      Leads (Artifact.write (.ofText "lang.d.ts") modules.typesModule) { disk := d } (.ok false)
        { disk := d } ∧
      ∃ told, Leads (run blockedNames besideOptions) { disk := d } (.ok modules)
        { disk := d, notices := [] ++ told ++ [.artifactUnchanged "lang.js",
          .artifactUnchanged "lang.d.ts", .compiled modules.locales (milliseconds 0)] } := by
  constructor
  · have hok : (Catalogue.merge Template.compiler [returningDocument]).outcome.isOk = true := by
      cbv
    obtain ⟨c, hc⟩ := Except.exists_eq_ok hok
    exact ⟨c, _, hc, rfl, leads_run_again.1 _ c hc "e\rn" (.value "\r") [] _ rfl⟩
  · obtain ⟨modules, dataBytes, typesBytes, notices, hrun⟩ := exists_leads_run_beside
    have hdata : (writtenDisk dataBytes typesBytes).locate (.ofText "lang.js") =
      .ok ["lang.js"] := rfl
    have htypes : (writtenDisk dataBytes typesBytes).locate (.ofText "lang.d.ts") =
      .ok ["lang.d.ts"] := rfl
    have hne : (writtenDisk dataBytes typesBytes).locate (.ofText "lang.js") ≠
        (writtenDisk dataBytes typesBytes).locate (.ofText "lang.d.ts") := by
      rw [hdata, htypes]
      decide
    exact ⟨modules, _, notices, hrun, hne, not_isPlaceIn_written hdata,
      not_isPlaceIn_written htypes,
      leads_run_again.2 blockedNames besideOptions "lang" "lang.js" "lang.d.ts" _ _ modules rfl rfl
        rfl hrun hne (not_isPlaceIn_written hdata) (not_isPlaceIn_written htypes) _ rfl rfl⟩

end Compile

end Phrasebook
