import Mathlib.Data.List.Forall2
import Mathlib.Data.List.Sort
import Phrasebook.Document.Load
import Phrasebook.Proofs.Disk.Storage

/-! # Documents on a disk

Reading the documents of a directory changes no file (`keeps_loadAll`). It gives those that the disk
stores there (`leads_loadAll_ok`), in the order of their names, and where nothing is planned to fail
it gives them again (`AllStored.leads_loadAll`). A disk stores the same documents as another if the
directories stay and with them the files under the names of documents (`AllStored.of_stay`). -/

namespace Phrasebook.Document

open Machine (Leads Keeps)

/-! ### What reading keeps -/

theorem keeps_keepIf {α ε : Type} {test : α → ExceptT ε (StateM Machine) Bool}
    (h : ∀ a, Keeps Eq (test a)) (l : List α) : Keeps Eq (keepIf test l) := by
  induction l with
  | nil => exact Machine.keeps_pure _
  | cons a rest ih => exact (h a).bind fun _ => ih.bind fun _ => Machine.keeps_pure _

theorem keeps_discover (directory : DiskPath) :
    Keeps Eq (discover (m := StateM Machine) directory) := by
  refine Keeps.adapt ((Machine.keeps_ask _).bind fun names => ?_) _
  exact keeps_keepIf (fun _ => Machine.keeps_ask _) _

theorem keeps_load (path : DiskPath) : Keeps Eq (load (m := StateM Machine) path) := by
  refine ((Artifact.keeps_readText path).adapt _).bind fun text => ?_
  refine (Machine.keeps_outcome _).bind fun tree => ?_
  exact (Machine.keeps_lift fun _ => rfl).bind fun _ => Machine.keeps_pure _

theorem run_attemptAll_cons {path : DiskPath} {s t : Machine} {attempt : Except Fault Document}
    (h : Leads (load path) s attempt t) (rest : List DiskPath) :
    ((attemptAll (m := StateM Machine) (path :: rest)).run s).run =
      (attempt :: ((attemptAll (m := StateM Machine) rest).run t).run.1,
        ((attemptAll (m := StateM Machine) rest).run t).run.2) := by
  have hload : ((load (m := StateM Machine) path).run.run s).run = (attempt, t) := h
  rw [attemptAll, StateT.run_bind, Id.run_bind, hload]
  rfl

theorem disk_attemptAll (paths : List DiskPath) (s : Machine) :
    ((attemptAll (m := StateM Machine) paths).run s).run.2.disk = s.disk := by
  induction paths generalizing s with
  | nil => rfl
  | cons path rest ih =>
    obtain ⟨attempt, t, hload⟩ := Machine.exists_leads (load path) s
    rw [run_attemptAll_cons hload, ih, keeps_load path _ _ _ hload]

/-- **Reading documents** changes no file. -/
theorem keeps_loadAll (directory : DiskPath) :
    Keeps Eq (loadAll (m := StateM Machine) directory) := by
  refine ((keeps_discover directory).adapt _).bind fun paths => ?_
  exact (Machine.keeps_lift (disk_attemptAll paths)).bind fun _ => Machine.keeps_outcome _

/-! ### Documents that are stored -/

/-- **A disk stores a document at a path**: what is read there decodes to its tree. -/
def StoredAt (d : Disk) (path : DiskPath) (document : Document) : Prop :=
  ∃ text tree, d.Stores path text ∧ decode text path.toText = .ok tree ∧
    document = { locale := path.stem, tree, source := path.toText }

/-- The paths of the documents of a directory, given the names in it. -/
def pathsIn (d : Disk) (directory : DiskPath) (names : List Text) : List DiskPath :=
  (((Sorted.ofList names).map directory.child).filter fun path => path.suffix = suffix).filter
    d.isFile

/-- **A disk stores the documents of a directory**, in the order of their names. -/
def AllStored (d : Disk) (directory : DiskPath) (documents : List Document) : Prop :=
  ∃ names, d.list directory = .ok names ∧
    List.Forall₂ (StoredAt d) (pathsIn d directory names) documents

/-- A path leads to the place of a document of a directory: into the directory, to a name that ends
as those of documents do. -/
def IsPlaceIn (d : Disk) (directory path : DiskPath) : Prop :=
  ∃ name q, (directory.child name).suffix = suffix ∧ d.locate (directory.child name) = .ok q ∧
    d.locate path = .ok q

section Loading
variable {s s' : Machine} {path directory : DiskPath} {document : Document}
  {documents : List Document}

theorem leads_load_ok (h : Leads (load path) s (.ok document) s') :
    StoredAt s.disk path document := by
  obtain ⟨text, t, htext, hrest⟩ := Machine.leads_bind_ok.mp h
  obtain ⟨tree, u, htree, hrest⟩ := Machine.leads_bind_ok.mp hrest
  obtain ⟨_, v, -, hpure⟩ := Machine.leads_bind_ok.mp hrest
  cases (Machine.leads_pure.mp hpure).1
  exact ⟨text, tree, Artifact.leads_readText_ok (Machine.leads_adapt_ok.mp htext),
    (Machine.leads_outcome.mp htree).1.symm, rfl⟩

theorem StoredAt.leads_load (h : StoredAt s.disk path document) (hplan : s.plan = []) :
    Leads (load path) s (.ok document)
      { s with notices := s.notices ++ [.documentLoaded path.toText] } := by
  obtain ⟨text, tree, htext, hdecode, rfl⟩ := h
  refine Machine.leads_bind_ok.mpr
    ⟨text, s, Machine.leads_adapt_ok.mpr (htext.leads_readText hplan), ?_⟩
  refine Machine.leads_bind_ok.mpr
    ⟨tree, s, Machine.leads_outcome.mpr ⟨hdecode.symm, rfl⟩, ?_⟩
  exact Machine.leads_bind_ok.mpr
    ⟨(), _, Machine.leads_lift.mpr ⟨(), rfl, rfl⟩, Machine.leads_pure.mpr ⟨rfl, rfl⟩⟩

/-! ### The paths of documents -/

theorem leads_keepIf_isFile_ok {candidates paths : List DiskPath}
    (h : Leads (keepIf Host.isFile candidates) s (.ok paths) s') :
    paths = candidates.filter s.disk.isFile := by
  induction candidates generalizing s s' paths with
  | nil => exact Except.ok.inj (Machine.leads_pure.mp h).1
  | cons candidate rest ih =>
    obtain ⟨passes, t, htest, hrest⟩ := Machine.leads_bind_ok.mp h
    obtain ⟨others, u, hothers, hpure⟩ := Machine.leads_bind_ok.mp hrest
    obtain ⟨hpasses, hdisk⟩ := Machine.leads_ask_ok htest
    obtain rfl := Except.ok.inj hpasses
    obtain rfl := Except.ok.inj (Machine.leads_pure.mp hpure).1
    rw [ih hothers, hdisk, List.filter_cons]

theorem leads_keepIf_isFile (candidates : List DiskPath) (hplan : s.plan = []) :
    Leads (keepIf Host.isFile candidates) s (.ok (candidates.filter s.disk.isFile)) s := by
  induction candidates with
  | nil => exact Machine.leads_pure.mpr ⟨rfl, rfl⟩
  | cons candidate rest ih =>
    refine Machine.leads_bind_ok.mpr
      ⟨s.disk.isFile candidate, s, Machine.leads_ask_of_eq_ok rfl hplan, ?_⟩
    refine Machine.leads_bind_ok.mpr ⟨rest.filter s.disk.isFile, s, ih, ?_⟩
    exact Machine.leads_pure.mpr ⟨by rw [List.filter_cons], rfl⟩

theorem leads_discover_ok {paths : List DiskPath}
    (h : Leads (discover directory) s (.ok paths) s') :
    ∃ names, s.disk.list directory = .ok names ∧ paths = pathsIn s.disk directory names := by
  obtain ⟨names, t, hlist, hkeep⟩ := Machine.leads_bind_ok.mp (Machine.leads_adapt_ok.mp h)
  obtain ⟨hnames, hdisk⟩ := Machine.leads_ask_ok hlist
  refine ⟨names, hnames, ?_⟩
  rw [leads_keepIf_isFile_ok hkeep, hdisk]
  rfl

theorem leads_discover {names : List Text} (h : s.disk.list directory = .ok names)
    (hplan : s.plan = []) :
    Leads (discover directory) s (.ok (pathsIn s.disk directory names)) s :=
  Machine.leads_adapt_ok.mpr (Machine.leads_bind_ok.mpr
    ⟨names, s, Machine.leads_ask_of_eq_ok h hplan, leads_keepIf_isFile _ hplan⟩)

/-! ### Reading all documents -/

theorem collect_eq_ok {attempts : List (Except Fault Document)} :
    collect attempts = .ok documents ↔ attempts = documents.map .ok := by
  induction attempts generalizing documents with
  | nil =>
    rw [collect, eq_comm (a := []), List.map_eq_nil_iff, Except.ok.injEq]
    exact eq_comm
  | cons attempt rest ih =>
    cases attempt with
    | error fault =>
      refine ⟨nofun, fun h => ?_⟩
      cases documents <;> cases h
    | ok first =>
      rw [collect]
      cases documents with
      | nil =>
        refine ⟨fun h => ?_, nofun⟩
        cases hrest : collect rest with
        | error fault =>
          rw [hrest] at h
          cases h
        | ok others =>
          rw [hrest] at h
          cases h
      | cons document others =>
        rw [List.map_cons, List.cons.injEq, ← ih, Except.ok.injEq]
        cases collect rest with
        | error fault => simp [Except.map]
        | ok found => simp [Except.map]

theorem forall₂_of_attemptAll {paths : List DiskPath}
    (h : ((attemptAll (m := StateM Machine) paths).run s).run.1 = documents.map .ok) :
    List.Forall₂ (StoredAt s.disk) paths documents := by
  induction paths generalizing s documents with
  | nil =>
    cases List.map_eq_nil_iff.mp (Eq.symm h)
    exact .nil
  | cons path rest ih =>
    obtain ⟨attempt, t, hload⟩ := Machine.exists_leads (load path) s
    rw [run_attemptAll_cons hload] at h
    cases documents with
    | nil => cases h
    | cons document others =>
      obtain ⟨rfl, hothers⟩ := List.cons.inj h
      have hrest := ih hothers
      rw [← keeps_load path _ _ _ hload] at hrest
      exact .cons (leads_load_ok hload) hrest

theorem run_attemptAll_of_forall₂ {paths : List DiskPath} (hplan : s.plan = [])
    (h : List.Forall₂ (StoredAt s.disk) paths documents) :
    ∃ told, ((attemptAll (m := StateM Machine) paths).run s).run =
      (documents.map .ok, { s with notices := s.notices ++ told }) := by
  obtain ⟨d, plan, notices⟩ := s
  simp only at hplan h
  subst hplan
  induction h generalizing notices with
  | nil =>
    refine ⟨[], ?_⟩
    rw [List.append_nil]
    rfl
  | @cons path document rest others hdocument _ ih =>
    have hload := hdocument.leads_load (s := ⟨d, [], notices⟩) rfl
    obtain ⟨told, hrun⟩ := ih (notices ++ [.documentLoaded path.toText])
    refine ⟨.documentLoaded path.toText :: told, ?_⟩
    rw [run_attemptAll_cons hload, hrun, List.append_assoc]
    rfl

/-- **What is read are the documents that the disk stores.** -/
theorem leads_loadAll_ok (h : Leads (loadAll directory) s (.ok documents) s') :
    AllStored s.disk directory documents := by
  obtain ⟨paths, t, hpaths, hrest⟩ := Machine.leads_bind_ok.mp h
  obtain ⟨attempts, u, hattempts, hcollect⟩ := Machine.leads_bind_ok.mp hrest
  have hdiscover := Machine.leads_adapt_ok.mp hpaths
  obtain ⟨names, hnames, rfl⟩ := leads_discover_ok hdiscover
  obtain ⟨_, hattempted, hrun⟩ := Machine.leads_lift.mp hattempts
  cases hattempted
  have hall := collect_eq_ok.mp (Machine.leads_outcome.mp hcollect).1.symm
  have hstored := forall₂_of_attemptAll ((congrArg Prod.fst hrun).trans hall)
  rw [← keeps_discover directory _ _ _ hdiscover] at hstored
  exact ⟨names, hnames, hstored⟩

/-- **Documents that the disk stores are read**, where nothing is planned to fail. -/
theorem AllStored.leads_loadAll (h : AllStored s.disk directory documents) (hplan : s.plan = []) :
    ∃ told, Leads (loadAll directory) s (.ok documents)
      { s with notices := s.notices ++ told } := by
  obtain ⟨names, hnames, hdocuments⟩ := h
  obtain ⟨told, hrun⟩ := run_attemptAll_of_forall₂ hplan hdocuments
  refine ⟨told, Machine.leads_bind_ok.mpr
    ⟨_, s, Machine.leads_adapt_ok.mpr (leads_discover hnames hplan), ?_⟩⟩
  refine Machine.leads_bind_ok.mpr
    ⟨documents.map .ok, _, Machine.leads_lift.mpr ⟨_, rfl, hrun⟩, ?_⟩
  exact Machine.leads_outcome.mpr ⟨(collect_eq_ok.mpr rfl).symm, rfl⟩

end Loading

/-! ### Disks with the same documents -/

theorem ne_up_of_suffix {directory : DiskPath} {name : Text}
    (h : (directory.child name).suffix = suffix) : name ≠ DiskPath.up := by
  rintro rfl
  have hname : (directory.child DiskPath.up).name = DiskPath.up := by
    unfold DiskPath.name DiskPath.child
    rw [List.getLast?_concat]
    rfl
  unfold DiskPath.suffix at h
  rw [hname] at h
  exact absurd h (by decide)

section Stay
variable {d e : Disk} {directory : DiskPath}

/-- A file is listed in its directory. -/
theorem mem_of_isFile {names : List Text} {name : Text} (hlist : d.list directory = .ok names)
    (hup : name ≠ DiskPath.up) (hfile : d.isFile (directory.child name) = true) : name ∈ names := by
  by_contra hname
  obtain ⟨place, hplace, hdirectory, hfree⟩ := Disk.node?_eq_none_of_list hlist hname
  obtain ⟨bytes, hread⟩ := Disk.isFile_iff.mp hfile
  obtain ⟨q, hq, hbytes⟩ := Disk.read_eq_ok.mp hread
  have hchild := (Disk.locate_child hup).mpr ⟨place, hplace, hdirectory, rfl⟩
  rw [hchild] at hq
  cases hq
  unfold Disk.file? at hbytes
  rw [hfree] at hbytes
  cases hbytes

variable (hstay : d.DirectoriesStay e)
  (hfiles : ∀ name, (directory.child name).suffix = suffix → ∀ q,
    e.locate (directory.child name) = .ok q → e.file? q = d.file? q)
include hstay hfiles

theorem read_eq_ok_of_stay {names : List Text} (hlist : d.list directory = .ok names)
    {name : Text} (hsuffix : (directory.child name).suffix = suffix) {bytes : Bytes} :
    e.read (directory.child name) = .ok bytes ↔ d.read (directory.child name) = .ok bytes := by
  have hup := ne_up_of_suffix hsuffix
  obtain ⟨place, hplace, hdirectory, -⟩ := Disk.list_eq_ok.mp hlist
  have hchild := (Disk.locate_child hup).mpr ⟨place, hplace, hdirectory, rfl⟩
  have hchild' := hstay.locate hchild
  rw [Disk.read_eq_ok, Disk.read_eq_ok, hchild, hchild']
  refine exists_congr fun q => and_congr_right fun hq => ?_
  rw [hfiles name hsuffix q (hchild'.trans hq)]

theorem pathsIn_eq_of_stay {names names' : List Text} (hlist : d.list directory = .ok names)
    (hlist' : e.list directory = .ok names') :
    pathsIn d directory names = pathsIn e directory names' := by
  have hfile : ∀ name, (directory.child name).suffix = suffix →
      e.isFile (directory.child name) = d.isFile (directory.child name) := by
    intro name hsuffix
    rw [Bool.eq_iff_iff, Disk.isFile_iff, Disk.isFile_iff]
    exact exists_congr fun bytes => read_eq_ok_of_stay hstay hfiles hlist hsuffix
  have hpaths : ∀ (t : Disk) (l : List Text), pathsIn t directory l =
      ((Sorted.ofList l).filter fun name => (directory.child name).suffix = suffix &&
        t.isFile (directory.child name)).map directory.child := by
    intro t l
    unfold pathsIn
    rw [List.filter_filter, List.filter_map]
    refine congrArg _ (List.filter_congr fun name _ => ?_)
    exact Bool.and_comm _ _
  rw [hpaths, hpaths]
  refine congrArg _ ?_
  refine ((Sorted.pairwise_ofList _).filter _).eq_of_mem_iff
    ((Sorted.pairwise_ofList _).filter _) fun name => ?_
  simp only [List.mem_filter, Sorted.mem_ofList, Bool.and_eq_true, decide_eq_true_eq]
  constructor
  · rintro ⟨-, hsuffix, hisFile⟩
    rw [← hfile name hsuffix] at hisFile
    exact ⟨mem_of_isFile hlist' (ne_up_of_suffix hsuffix) hisFile, hsuffix, hisFile⟩
  · rintro ⟨-, hsuffix, hisFile⟩
    rw [hfile name hsuffix] at hisFile
    exact ⟨mem_of_isFile hlist (ne_up_of_suffix hsuffix) hisFile, hsuffix, hisFile⟩

theorem StoredAt.of_stay {names : List Text} (hlist : d.list directory = .ok names) {name : Text}
    (hsuffix : (directory.child name).suffix = suffix) {document : Document}
    (h : StoredAt d (directory.child name) document) :
    StoredAt e (directory.child name) document := by
  obtain ⟨text, tree, ⟨bytes, t, hread, hdecode, htext⟩, htree, hdocument⟩ := h
  exact ⟨text, tree, ⟨bytes, t, (read_eq_ok_of_stay hstay hfiles hlist hsuffix).mpr hread, hdecode,
    htext⟩, htree, hdocument⟩

/-- **The same documents are stored** on a disk on which the directories stay and with them the
files under the names of documents. -/
theorem AllStored.of_stay {documents : List Document} (h : AllStored d directory documents) :
    AllStored e directory documents := by
  obtain ⟨names, hlist, hdocuments⟩ := h
  obtain ⟨place, hplace, hdirectory, -⟩ := Disk.list_eq_ok.mp hlist
  have hlist' := Disk.list_eq_ok.mpr
    ⟨place, hstay.locate hplace, hstay.node? place hdirectory, rfl⟩
  refine ⟨_, hlist', ?_⟩
  rw [← pathsIn_eq_of_stay hstay hfiles hlist hlist']
  have hnamed : ∀ path ∈ pathsIn d directory names, ∃ name, path = directory.child name ∧
      (directory.child name).suffix = suffix := by
    intro path hpath
    obtain ⟨hpath, hsuffix⟩ := List.mem_filter.mp (List.mem_filter.mp hpath).1
    obtain ⟨name, -, rfl⟩ := List.mem_map.mp hpath
    exact ⟨name, rfl, of_decide_eq_true hsuffix⟩
  refine List.Forall₂.imp ?_ ((List.forall₂_and_left _ _).mpr ⟨hnamed, hdocuments⟩)
  rintro _ document ⟨⟨name, rfl, hsuffix⟩, hstored⟩
  exact hstored.of_stay hstay hfiles hlist hsuffix

end Stay

end Phrasebook.Document
