import Mathlib.Tactic.SplitIfs
import Phrasebook.Disk.Tree
import Phrasebook.Proofs.OrderedMap

/-! # What operations change on a disk

An operation changes what is at one place, and paths lead to where they led before as long as every
directory stays (`DirectoriesStay.locate`). New directories leave the files of a disk alone
(`Grows`); a temporary file stands beside them at a place of its own (`Holds`), from where it is
removed again (`Holds.grows_remove`) or moved to another place (`Holds.puts_replace`). -/

namespace Phrasebook

/-! ### What is at a place -/

namespace OrderedMap

variable {κ ν : Type} [DecidableEq κ]

theorem get?_filter_ne (key other : κ) (m : OrderedMap κ ν) :
    get? other (m.filter fun entry => entry.1 ≠ key) =
      if key = other then none else m.get? other := by
  induction m with
  | nil => simp [get?]
  | cons entry rest ih =>
    obtain ⟨k, v⟩ := entry
    by_cases hk : k = key
    · subst hk
      rw [List.filter_cons_of_neg (by simp), ih]
      by_cases ho : k = other <;> simp [get?, ho]
    · rw [List.filter_cons_of_pos (by simpa using hk), get?, get?, ih]
      by_cases ho : k = other
      · simp [ho, Ne.symm (ho ▸ hk : other ≠ key)]
      · simp [ho]

end OrderedMap

namespace Disk

variable {d e : Disk} {place : Place}

/-- The content of the file at a place, if there is one. -/
def file? (d : Disk) (place : Place) : Option Bytes :=
  match d.node? place with
  | some (.file content _) => some content
  | _ => none

theorem node?_put (hplace : place ≠ []) (node : DiskNode) (q : Place) :
    node? { d with nodes := d.nodes.put place node } q =
      if place = q then some node else d.node? q := by
  unfold node?
  by_cases hq : q = []
  · rw [if_pos hq, if_pos hq, if_neg (fun h => hplace (h.trans hq))]
  · rw [if_neg hq, if_neg hq, OrderedMap.get?_put]

theorem node?_withFile (hplace : place ≠ []) (content : Bytes) (q : Place) :
    (d.withFile place content).node? q =
      if place = q then some (.file content d.time) else d.node? q :=
  node?_put hplace _ q

theorem node?_without (hplace : place ≠ []) (q : Place) :
    (d.without place).node? q = if place = q then none else d.node? q := by
  unfold node? without
  by_cases hq : q = []
  · rw [if_pos hq, if_pos hq, if_neg (fun h => hplace (h.trans hq))]
  · rw [if_neg hq, if_neg hq]
    exact OrderedMap.get?_filter_ne place q d.nodes

/-- At the root is a directory. -/
theorem ne_nil_of_node? (h : d.node? place ≠ some .directory) : place ≠ [] := by
  rintro rfl
  exact h rfl

/-! ### Where paths lead -/

/-- **Every directory stays**, the working directory too. -/
structure DirectoriesStay (d e : Disk) : Prop where
  workingDirectory : e.workingDirectory = d.workingDirectory
  node? : ∀ q, d.node? q = some .directory → e.node? q = some .directory

theorem DirectoriesStay.refl (d : Disk) : DirectoriesStay d d := ⟨rfl, fun _ => id⟩

theorem DirectoriesStay.trans {f : Disk} (h : DirectoriesStay d e) (h' : DirectoriesStay e f) :
    DirectoriesStay d f :=
  ⟨h'.workingDirectory.trans h.workingDirectory, fun q hq => h'.node? q (h.node? q hq)⟩

theorem DirectoriesStay.follow (h : DirectoriesStay d e) {parts : List Text} {q : Place}
    (hfollow : d.follow place parts = .ok q) : e.follow place parts = .ok q := by
  induction parts generalizing place with
  | nil => exact hfollow
  | cons part rest ih =>
    rw [Disk.follow] at hfollow ⊢
    cases hnode : d.node? place with
    | none =>
      rw [hnode] at hfollow
      cases hfollow
    | some node =>
      rw [hnode] at hfollow
      cases node with
      | file content changed => cases hfollow
      | directory =>
        rw [h.node? place hnode]
        exact ih hfollow

/-- **A path leads to where it led** if every directory stays. -/
theorem DirectoriesStay.locate (h : DirectoriesStay d e) {path : DiskPath} {q : Place}
    (hlocate : d.locate path = .ok q) : e.locate path = .ok q := by
  unfold Disk.locate at hlocate ⊢
  rw [h.workingDirectory]
  exact h.follow hlocate

theorem follow_append {parts rest : List Text} {q : Place} :
    d.follow place (parts ++ rest) = .ok q ↔
      ∃ middle, d.follow place parts = .ok middle ∧ d.follow middle rest = .ok q := by
  induction parts generalizing place with
  | nil => simp [follow]
  | cons part parts ih =>
    rw [List.cons_append, follow, follow]
    cases d.node? place with
    | none => simp
    | some node =>
      cases node with
      | file content changed => simp
      | directory => exact ih

/-- **A path with one more part** leads into the directory that the path leads to. -/
theorem locate_child {path : DiskPath} {part : Text} (hpart : part ≠ DiskPath.up) {q : Place} :
    d.locate (path.child part) = .ok q ↔
      ∃ place, d.locate path = .ok place ∧ d.node? place = some .directory ∧
        q = place ++ [part] := by
  unfold locate DiskPath.child DiskPath.isAbsolute
  rw [follow_append]
  refine exists_congr fun place => and_congr_right fun _ => ?_
  rw [follow]
  cases d.node? place with
  | none => simp
  | some node =>
    cases node with
    | file content changed => simp
    | directory =>
      rw [if_neg hpart, follow]
      simp [eq_comm]

/-- A path that may be the target of a move is that of a name in a directory. -/
theorem exists_child_of_isTarget {path : DiskPath} (h : isTarget path = true) :
    path.name ≠ DiskPath.up ∧ path = path.parent.child path.name := by
  obtain ⟨start, parts⟩ := path
  unfold isTarget at h
  cases hlast : parts.getLast? with
  | none =>
    simp only [hlast] at h
    cases h
  | some part =>
    simp only [hlast, decide_eq_true_eq] at h
    obtain ⟨before, rfl⟩ := List.getLast?_eq_some_iff.mp hlast
    have hname : DiskPath.name ⟨start, before ++ [part]⟩ = part := by
      unfold DiskPath.name
      rw [List.getLast?_concat]
      rfl
    refine ⟨by rw [hname]; exact h, ?_⟩
    rw [hname, DiskPath.parent, DiskPath.child, List.dropLast_concat]

/-! ### New directories -/

/-- The place of a temporary file for a file of some name. -/
def IsTemporary (name : Text) (q : Place) : Prop :=
  ∃ above number, q = above ++ [temporaryName name number]

/-- **What was at a place is there**; where nothing was is a directory, or what is left at a spare
place. -/
def GrowsAt (spare : Place → Prop) (d e : Disk) (q : Place) : Prop :=
  e.node? q = d.node? q ∨ d.node? q = none ∧ (e.node? q = some .directory ∨ spare q)

/-- **Nothing but new directories**, and what is left at spare places. -/
structure Grows (spare : Place → Prop) (d e : Disk) : Prop where
  workingDirectory : e.workingDirectory = d.workingDirectory
  growsAt : ∀ q, GrowsAt spare d e q

/-- **The file at a place stays**, or something was left where nothing was. -/
def Stays (spare : Place → Prop) (d e : Disk) (q : Place) : Prop :=
  e.file? q = d.file? q ∨ d.node? q = none ∧ spare q

section Grows
variable {spare : Place → Prop}

theorem GrowsAt.trans {f : Disk} {q : Place} (h : GrowsAt spare d e q) (h' : GrowsAt spare e f q) :
    GrowsAt spare d f q := by
  rcases h' with heq | ⟨hnone, hnew⟩
  · unfold GrowsAt
    rw [heq]
    exact h
  · rcases h with heq | ⟨hnone', -⟩
    · exact .inr ⟨heq ▸ hnone, hnew⟩
    · exact .inr ⟨hnone', hnew⟩

theorem GrowsAt.stays {q : Place} (h : GrowsAt spare d e q) : Stays spare d e q := by
  unfold Stays Disk.file?
  rcases h with heq | ⟨hnone, hdirectory | hspare⟩
  · exact .inl (by rw [heq])
  · exact .inl (by rw [hnone, hdirectory])
  · exact .inr ⟨hnone, hspare⟩

theorem Grows.refl (d : Disk) : d.Grows spare d := ⟨rfl, fun _ => .inl rfl⟩

theorem Grows.trans {f : Disk} (h : d.Grows spare e) (h' : e.Grows spare f) : d.Grows spare f :=
  ⟨h'.workingDirectory.trans h.workingDirectory, fun q => (h.growsAt q).trans (h'.growsAt q)⟩

instance : Std.Refl (Grows spare) := ⟨Grows.refl⟩

instance : Trans (Grows spare) (Grows spare) (Grows spare) := ⟨Grows.trans⟩

theorem Grows.mono {other : Place → Prop} (h : d.Grows spare e) (hspare : ∀ q, spare q → other q) :
    d.Grows other e :=
  ⟨h.workingDirectory, fun q => (h.growsAt q).imp_right fun hq =>
    hq.imp_right fun hnew => hnew.imp_right (hspare q)⟩

theorem Grows.directoriesStay (h : d.Grows spare e) : d.DirectoriesStay e := by
  refine ⟨h.workingDirectory, fun q hq => ?_⟩
  rcases h.growsAt q with heq | ⟨hnone, -⟩
  · exact heq.trans hq
  · rw [hnone] at hq
    cases hq

/-- Where nothing but directories is new, every file is as before. -/
theorem Grows.file?_eq (h : d.Grows (fun _ => False) e) (q : Place) : e.file? q = d.file? q := by
  rcases (h.growsAt q).stays with hsame | ⟨-, hspare⟩
  · exact hsame
  · exact hspare.elim

theorem grows_makeDirectory {path : DiskPath} (h : d.makeDirectory path = .ok e) :
    d.Grows spare e := by
  unfold makeDirectory at h
  split at h
  · cases h
  next place _ =>
    split at h
    · cases h
    next hnone =>
      cases h
      have hplace : place ≠ [] := ne_nil_of_node? (by rw [hnone]; nofun)
      refine ⟨rfl, fun q => ?_⟩
      unfold GrowsAt
      rw [node?_put hplace]
      split_ifs with hq
      · exact .inr ⟨hq ▸ hnone, .inl rfl⟩
      · exact .inl rfl

end Grows

/-! ### A temporary file -/

/-- **A disk holds a file besides another disk**: at a place where the other has nothing. -/
structure Holds (d : Disk) (place : Place) (content : Bytes) (e : Disk) : Prop where
  workingDirectory : e.workingDirectory = d.workingDirectory
  free : d.node? place = none
  file : ∃ changed, e.node? place = some (.file content changed)
  elsewhere : ∀ q, q ≠ place → e.node? q = d.node? q

/-- **A file is put at a place**, and nothing else is changed. -/
structure Puts (d : Disk) (place : Place) (content : Bytes) (e : Disk) : Prop where
  workingDirectory : e.workingDirectory = d.workingDirectory
  free : d.node? place ≠ some .directory
  file : ∃ changed, e.node? place = some (.file content changed)
  elsewhere : ∀ q, q ≠ place → e.node? q = d.node? q

theorem Puts.directoriesStay {content : Bytes} (h : d.Puts place content e) :
    d.DirectoriesStay e := by
  refine ⟨h.workingDirectory, fun q hq => ?_⟩
  rw [h.elsewhere q fun heq => h.free (heq ▸ hq)]
  exact hq

/-- Where no file is put, a disk grows as before and after. -/
theorem Puts.growsAt {content : Bytes} (h : d.Puts place content e) {spare : Place → Prop}
    {q : Place} (hq : q ≠ place) : GrowsAt spare d e q :=
  .inl (h.elsewhere q hq)

/-- A file that is put stays while the disk grows. -/
theorem Puts.file?_grows {content : Bytes} (h : d.Puts place content e) {spare : Place → Prop}
    {f : Disk} (hgrows : e.Grows spare f) : f.file? place = some content := by
  obtain ⟨changed, hfile⟩ := h.file
  unfold Disk.file?
  rcases hgrows.growsAt place with heq | ⟨hnone, -⟩
  · rw [heq, hfile]
  · rw [hfile] at hnone
    cases hnone

theorem puts_withFile (h : d.node? place ≠ some .directory) (content : Bytes) :
    d.Puts place content (d.withFile place content) := by
  have hplace := ne_nil_of_node? h
  refine ⟨rfl, h, ⟨d.time, ?_⟩, fun q hq => ?_⟩
  · rw [node?_withFile hplace, if_pos rfl]
  · rw [node?_withFile hplace, if_neg (Ne.symm hq)]

/-- A file is given its content. -/
theorem puts_write {path : DiskPath} {content : Bytes} (h : d.write path content = .ok e) :
    ∃ place, d.locate path = .ok place ∧ d.Puts place content e := by
  unfold write at h
  split at h
  · cases h
  next place hlocate =>
    split at h
    · cases h
    next hnode =>
      cases h
      exact ⟨place, hlocate, puts_withFile (by rw [hnode]; nofun) content⟩
    next hnode =>
      cases h
      exact ⟨place, hlocate, puts_withFile (by rw [hnode]; nofun) content⟩

/-- The name of a temporary file is longer than that of its file. -/
theorem temporaryName_ne (name : Text) (number : Nat) :
    temporaryName name number ≠ name ∧ temporaryName name number ≠ DiskPath.up := by
  have hlength : name.length + 6 ≤ (temporaryName name number).length := by
    have hdot : (Text.ofString ".").length = 1 := rfl
    have htmp : (Text.ofString ".tmp").length = 4 := rfl
    unfold temporaryName
    simp only [List.length_append, hdot, htmp]
    omega
  have hup : DiskPath.up.length = 2 := rfl
  constructor
  · intro h
    rw [h] at hlength
    omega
  · intro h
    rw [h] at hlength
    omega

theorem IsTemporary.ne_of_isTarget {path : DiskPath} (h : IsTemporary path.name place) {q : Place}
    (hlocate : d.locate path = .ok q) (htarget : isTarget path = true) : q ≠ place := by
  obtain ⟨above, number, rfl⟩ := h
  obtain ⟨hup, hchild⟩ := exists_child_of_isTarget htarget
  rw [hchild] at hlocate
  obtain ⟨directory, -, -, rfl⟩ := (locate_child hup).mp hlocate
  intro heq
  have hname : path.name = temporaryName path.name number :=
    List.singleton_inj.mp (List.append_inj_right' heq rfl)
  exact (temporaryName_ne path.name number).1 hname.symm

theorem node?_eq_none_of_list {directory : DiskPath} {names : List Text} {name : Text}
    (h : d.list directory = .ok names) (hname : name ∉ names) :
    ∃ place, d.locate directory = .ok place ∧ d.node? place = some .directory ∧
      d.node? (place ++ [name]) = none := by
  unfold list at h
  split at h
  · cases h
  next place hlocate =>
    split at h
    · cases h
    · cases h
    next hdirectory =>
      cases h
      refine ⟨place, hlocate, hdirectory, ?_⟩
      have hne : place ++ [name] ≠ [] := by simp
      unfold node?
      rw [if_neg hne]
      cases hget : d.nodes.get? (place ++ [name]) with
      | none => rfl
      | some node =>
        refine absurd (List.mem_filterMap.mpr ⟨_, OrderedMap.mem_of_get? hget, ?_⟩) hname
        unfold nameIn?
        rw [List.dropLast_concat, if_pos rfl, List.getLast?_concat]

/-- **A temporary file** is created at a place of its own, in the directory and under a longer name
than that of its file. -/
theorem holds_createTemporary {directory path : DiskPath} {name : Text}
    (h : d.createTemporary directory name = .ok (path, e)) :
    ∃ place number, e.locate path = .ok (place ++ [temporaryName name number]) ∧
      d.Holds (place ++ [temporaryName name number]) [] e := by
  unfold createTemporary at h
  cases hlist : d.list directory with
  | error fault =>
    rw [hlist] at h
    cases h
  | ok names =>
    simp only [hlist] at h
    split at h
    · cases h
    next number hnumber =>
      have hunlisted : temporaryName name number ∉ names := by
        simpa using List.find?_some hnumber
      obtain ⟨place, hlocate, hdirectory, hfree⟩ := node?_eq_none_of_list hlist hunlisted
      have hchild : d.locate (directory.child (temporaryName name number)) =
          .ok (place ++ [temporaryName name number]) :=
        (locate_child (temporaryName_ne name number).2).mpr ⟨place, hlocate, hdirectory, rfl⟩
      cases hwrite : d.write (directory.child (temporaryName name number)) [] with
      | error fault =>
        rw [hwrite] at h
        cases h
      | ok written =>
        rw [hwrite] at h
        cases h
        obtain ⟨q, hq, hputs⟩ := puts_write hwrite
        cases hchild.symm.trans hq
        exact ⟨place, number, hputs.directoriesStay.locate hchild,
          ⟨hputs.workingDirectory, hfree, hputs.file, hputs.elsewhere⟩⟩

section Temporary
variable {content : Bytes} (h : d.Holds place content e)
include h

theorem Holds.place_ne_nil : place ≠ [] := ne_nil_of_node? (by rw [h.free]; nofun)

theorem Holds.write {path : DiskPath} (hpath : e.locate path = .ok place) {f : Disk}
    {bytes : Bytes} (hwrite : e.write path bytes = .ok f) :
    f.locate path = .ok place ∧ d.Holds place bytes f := by
  obtain ⟨q, hq, hputs⟩ := puts_write hwrite
  cases hpath.symm.trans hq
  refine ⟨hputs.directoriesStay.locate hpath, hputs.workingDirectory.trans h.workingDirectory,
    h.free, hputs.file, fun q hne => ?_⟩
  rw [hputs.elsewhere q hne, h.elsewhere q hne]

theorem Holds.grows {spare : Place → Prop} (hspare : spare place) : d.Grows spare e := by
  refine ⟨h.workingDirectory, fun q => ?_⟩
  by_cases hq : q = place
  · exact .inr (hq ▸ ⟨h.free, .inr hspare⟩)
  · exact .inl (h.elsewhere q hq)

theorem Holds.grows_remove {spare : Place → Prop} {path : DiskPath}
    (hpath : e.locate path = .ok place) {f : Disk} (hremove : e.remove path = .ok f) :
    d.Grows spare f := by
  obtain ⟨changed, hfile⟩ := h.file
  simp only [Disk.remove, hpath, hfile, Except.ok.injEq] at hremove
  subst hremove
  refine ⟨h.workingDirectory, fun q => .inl ?_⟩
  rw [node?_without h.place_ne_nil]
  split_ifs with hq
  · rw [← hq, h.free]
  · exact h.elsewhere q (Ne.symm hq)

/-- **The file is moved** to another path, and nothing else is changed. -/
theorem Holds.puts_replace {source target : DiskPath} (hsource : e.locate source = .ok place)
    (hne : ∀ q, e.locate target = .ok q → isTarget target = true → q ≠ place) {f : Disk}
    (hreplace : e.replace source target = .ok f) :
    ∃ q, f.locate target = .ok q ∧ d.Puts q content f := by
  obtain ⟨changed, hfile⟩ := h.file
  cases hlocate : e.locate target with
  | error fault =>
    simp only [Disk.replace, hsource, hlocate] at hreplace
    cases hreplace
  | ok q =>
    simp only [Disk.replace, hsource, hlocate, hfile] at hreplace
    have hmoved : isTarget target = true ∧ e.node? q ≠ some .directory ∧
        f = { e.without place with
          nodes := (e.without place).nodes.put q (.file content changed) } := by
      split at hreplace <;> cases hreplace
      next htarget hold hnode => exact ⟨htarget, by rw [hnode]; nofun, by cases hold; rfl⟩
      next htarget hold hnode => exact ⟨htarget, by rw [hnode]; nofun, by cases hold; rfl⟩
    obtain ⟨htarget, hnode, rfl⟩ := hmoved
    have hq : q ≠ place := hne q hlocate htarget
    have hroot : q ≠ [] := ne_nil_of_node? hnode
    have hnodes : ∀ p, node? { e.without place with
        nodes := (e.without place).nodes.put q (.file content changed) } p =
          if q = p then some (.file content changed)
          else if place = p then none else e.node? p := by
      intro p
      rw [node?_put hroot, node?_without h.place_ne_nil]
    have hstay : e.DirectoriesStay { e.without place with
        nodes := (e.without place).nodes.put q (.file content changed) } := by
      refine ⟨rfl, fun p hp => ?_⟩
      have hnew : q ≠ p := fun heq => hnode (heq ▸ hp)
      have hold : place ≠ p := by
        rintro rfl
        rw [hfile] at hp
        cases hp
      rw [hnodes, if_neg hnew, if_neg hold]
      exact hp
    refine ⟨q, hstay.locate hlocate, h.workingDirectory, ?_, ⟨changed, ?_⟩, fun p hp => ?_⟩
    · rw [← h.elsewhere q hq]
      exact hnode
    · rw [hnodes, if_pos rfl]
    · rw [hnodes, if_neg (Ne.symm hp)]
      split_ifs with hplace
      · rw [← hplace, h.free]
      · exact h.elsewhere p (Ne.symm hplace)

end Temporary

end Disk

end Phrasebook
