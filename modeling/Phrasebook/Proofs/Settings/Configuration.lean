import Mathlib.Tactic.SplitIfs
import Phrasebook.Proofs.Compile.Pass
import Phrasebook.Proofs.Number.Binary64
import Phrasebook.Settings.Configuration

/-! # What a configuration file gives

A file that can be read and decoded either gives the options of its section, is refused with the
place of the file, or ends the reading in a crash. Which of these happens is told by the decoded
entries alone (`load_of_decode`): the options are those of the last entry under each key, with the
paths among them starting at the directory of the file. Two kinds of file crash the reading where
they should be refused: those in which the table around the section is no table
(`load_number_as_tool`), and those whose pause is a whole number beyond double precision. -/

namespace Phrasebook

/-! ### Settings -/

namespace Setting

/-- **The values of a setting**: a number for the pause, a text that is not empty for any other. -/
def Accepts (setting : Setting) (value : Datum Foreign) : Prop :=
  if setting = debounce then ∃ n, value = .number n else ∃ t, t ≠ [] ∧ value = .text t

/-- The settings that are paths. -/
def paths : List Setting := [languageDirectory, dataPath, typesPath]

theorem ofKey?_eq_some {key : Text} {setting : Setting} :
    ofKey? key = some setting ↔ setting.key = key := by
  constructor
  · intro h
    simpa using List.find?_some h
  · rintro rfl
    cases setting <;> decide

theorem key_inj {a b : Setting} : a.key = b.key ↔ a = b := by
  cases a <;> cases b <;> decide

end Setting

/-- The text that a draft has for a setting; the pause has none. -/
def Draft.text? (d : Draft) : Setting → Option (Given Text)
  | .languageDirectory => d.languageDirectory
  | .dataPath => d.dataPath
  | .typesPath => d.typesPath
  | .defaultLocale => d.defaultLocale.map .value
  | .moduleAlias => d.moduleAlias
  | .debounce => none

theorem Draft.text?_anchored (d : Draft) (base : DiskPath) (setting : Setting) :
    (d.anchored base).text? setting = if setting ∈ Setting.paths then
      (d.text? setting).map (Given.map (Options.anchor base)) else d.text? setting := by
  cases setting <;> rfl

namespace Configuration

open Machine (Leads)

/-! ### Entries -/

/-- An entry under a key of the section with a value of its setting. -/
def Proper (entry : DatumKey × Datum Foreign) : Prop :=
  ∃ setting : Setting, setting.key = entry.1.toText ∧ setting.Accepts entry.2

/-- An entry that gives a whole number beyond double precision as the pause. -/
def Oversized (entry : DatumKey × Datum Foreign) : Prop :=
  entry.1.toText = Setting.debounce.key ∧
    ∃ n : Int, entry.2 = .number (.int n) ∧ Binary64.overflow ≤ n.natAbs

/-- **An entry that gives an option.** -/
def Settable (entry : DatumKey × Datum Foreign) : Prop := Proper entry ∧ ¬ Oversized entry

/-- What is said of an entry that is not proper. -/
def complaint (entry : DatumKey × Datum Foreign) : OptionsFault :=
  match Setting.ofKey? entry.1.toText with
  | none => .unknownKey entry.1.toText
  | some .debounce => .notNumber entry.1.toText
  | some _ => .notText entry.1.toText

/-- The text that an entry gives under a key. -/
def textUnder (key : Text) (entry : DatumKey × Datum Foreign) : Option Text :=
  match entry.2 with
  | .text t => if entry.1.toText = key then some t else none
  | _ => none

/-- The number that an entry gives under a key. -/
def numberUnder (key : Text) (entry : DatumKey × Datum Foreign) : Option Binary64 :=
  match entry.2 with
  | .number n => if entry.1.toText = key then n.toBinary64? else none
  | _ => none

/-- What the last entry that gives something gives. -/
def last? {β : Type} (given : DatumKey × Datum Foreign → Option β)
    (options : List (DatumKey × Datum Foreign)) : Option β :=
  options.reverse.findSome? given

theorem last?_cons {β : Type} (given : DatumKey × Datum Foreign → Option β)
    (entry : DatumKey × Datum Foreign) (rest : List (DatumKey × Datum Foreign)) :
    last? given (entry :: rest) = (last? given rest).or (given entry) := by
  rw [last?, List.reverse_cons, List.findSome?_append, List.findSome?_singleton, last?]

section Entries
variable (location : Text) (d : Draft)

theorem set_text {setting : Setting} (hsetting : setting ≠ .debounce) {t : Text} (ht : t ≠ []) :
    ∃ d', set location d setting.key (.text t) = .ok d' ∧ d'.debounce = d.debounce ∧
      ∀ other, d'.text? other = if setting = other then some (.value t) else d.text? other := by
  have htext : ∀ key, nonEmptyText? key (.text t) = .ok t := fun key => if_neg ht
  unfold set
  rw [Setting.ofKey?_eq_some.mpr rfl]
  simp only [htext]
  cases setting with
  | debounce => exact absurd rfl hsetting
  | _ => exact ⟨_, rfl, rfl, fun other => by cases other <;> rfl⟩

theorem set_number (n : Number) : set location d Setting.debounce.key (.number n) =
    match n.toBinary64? with
    | none => .error (.crash .numberOutOfRange)
    | some x => .ok { d with debounce := some x } := rfl

theorem toBinary64?_eq_none {n : Number} :
    n.toBinary64? = none ↔ ∃ m : Int, n = .int m ∧ Binary64.overflow ≤ m.natAbs := by
  cases n with
  | int m =>
    refine (Binary64.ofInt?_eq_none_iff m).trans ⟨fun h => ⟨m, rfl, h⟩, ?_⟩
    rintro ⟨_, ⟨⟩, h⟩
    exact h
  | float x =>
    refine iff_of_false (Option.some_ne_none x) ?_
    rintro ⟨_, ⟨⟩, -⟩

/-- **An entry that gives an option is taken**: it sets what is under its key and nothing else. -/
theorem set_of_settable {entry : DatumKey × Datum Foreign} (h : Settable entry) :
    ∃ d', set location d entry.1.toText entry.2 = .ok d' ∧
      (∀ setting : Setting, d'.text? setting =
        ((textUnder setting.key entry).map .value).or (d.text? setting)) ∧
      d'.debounce = ((numberUnder Setting.debounce.key entry).map .value).or d.debounce := by
  obtain ⟨key, value⟩ := entry
  obtain ⟨⟨setting, hkey, haccepts⟩, hsize⟩ := h
  unfold Setting.Accepts at haccepts
  simp only at hkey haccepts ⊢
  rw [← hkey]
  split_ifs at haccepts with hsetting
  · subst hsetting
    obtain ⟨n, rfl⟩ := haccepts
    have hin : n.toBinary64? ≠ none := by
      intro hnone
      obtain ⟨m, rfl, hm⟩ := toBinary64?_eq_none.mp hnone
      exact hsize ⟨hkey.symm, m, rfl, hm⟩
    obtain ⟨x, hx⟩ := Option.ne_none_iff_exists'.mp hin
    refine ⟨{ d with debounce := some (.value x) }, ?_, fun setting => ?_, ?_⟩
    · rw [set_number, hx]
    · cases setting <;> rfl
    · simp only [numberUnder, ← hkey, if_true, hx, Option.map_some, Option.some_or]
  · obtain ⟨t, ht, rfl⟩ := haccepts
    obtain ⟨d', hset, hdebounce, htext⟩ := set_text location d hsetting ht
    refine ⟨d', hset, fun other => ?_, ?_⟩
    · simp only [htext, textUnder, ← hkey, Setting.key_inj]
      split_ifs <;> rfl
    · simp only [hdebounce, numberUnder, Option.map_none, Option.none_or]

/-- An entry that is not proper is refused. -/
theorem set_of_not_proper {entry : DatumKey × Datum Foreign} (h : ¬ Proper entry) :
    set location d entry.1.toText entry.2 =
      .error (.problem ((complaint entry).problem (some location))) := by
  obtain ⟨key, value⟩ := entry
  unfold set complaint
  cases hsetting : Setting.ofKey? key.toText with
  | none => rfl
  | some setting =>
    have hvalue : ¬ setting.Accepts value :=
      fun haccepts => h ⟨setting, Setting.ofKey?_eq_some.mp hsetting, haccepts⟩
    have htext : ¬ (∃ t, t ≠ [] ∧ value = .text t) → nonEmptyText? key.toText value =
        .error (.notText key.toText) := by
      intro hnone
      cases value with
      | text t =>
        have ht : t = [] := by_contra fun hne => hnone ⟨t, hne, rfl⟩
        exact if_pos ht
      | _ => rfl
    have hnumber : ¬ (∃ n, value = .number n) → seconds? key.toText value =
        .error (.notNumber key.toText) := by
      intro hnone
      cases value with
      | number n => exact absurd ⟨n, rfl⟩ hnone
      | _ => rfl
    cases setting with
    | debounce => simp only [hnumber hvalue]
    | _ =>
      simp only [htext hvalue]
      rfl

/-- A whole number beyond double precision crashes the reading. -/
theorem set_of_oversized {entry : DatumKey × Datum Foreign} (h : Oversized entry) :
    set location d entry.1.toText entry.2 = .error (.crash .numberOutOfRange) := by
  obtain ⟨hkey, n, hvalue, hn⟩ := h
  have hnone : (Number.int n).toBinary64? = none := (Binary64.ofInt?_eq_none_iff n).mpr hn
  rw [hkey, hvalue, set_number, hnone]

end Entries

/-! ### The section -/

section Section
variable {location : Text} {d d' : Draft}

theorem setAll_append {before after : List (DatumKey × Datum Foreign)}
    (h : setAll location d before = .ok d') :
    setAll location d (before ++ after) = setAll location d' after := by
  induction before generalizing d with
  | nil =>
    cases h
    rfl
  | cons entry rest ih =>
    obtain ⟨key, value⟩ := entry
    rw [setAll] at h
    rw [List.cons_append, setAll]
    cases hset : set location d key.toText value with
    | error fault =>
      rw [hset] at h
      cases h
    | ok extended =>
      rw [hset] at h
      exact ih h

variable (location) in
/-- **Entries that give options are taken in order**: the last one under a key counts. -/
theorem setAll_of_settable {options : List (DatumKey × Datum Foreign)}
    (h : ∀ entry ∈ options, Settable entry) (d : Draft) : ∃ d', setAll location d options = .ok d' ∧
      (∀ setting : Setting, d'.text? setting =
        ((last? (textUnder setting.key) options).map .value).or (d.text? setting)) ∧
      d'.debounce =
        ((last? (numberUnder Setting.debounce.key) options).map .value).or d.debounce := by
  induction options generalizing d with
  | nil => exact ⟨d, rfl, fun _ => rfl, rfl⟩
  | cons entry rest ih =>
    obtain ⟨hentry, hrest⟩ := List.forall_mem_cons.mp h
    obtain ⟨extended, hset, htext, hdebounce⟩ := set_of_settable location d hentry
    obtain ⟨d', hall, htext', hdebounce'⟩ := ih hrest extended
    refine ⟨d', ?_, fun setting => ?_, ?_⟩
    · rw [setAll, hset]
      exact hall
    · rw [htext', htext, last?_cons, Option.map_or, Option.or_assoc]
    · rw [hdebounce', hdebounce, last?_cons, Option.map_or, Option.or_assoc]

/-- The entries up to the first that gives no option decide how the reading ends. -/
theorem setAll_of_not_settable {before after : List (DatumKey × Datum Foreign)}
    {entry : DatumKey × Datum Foreign} (hbefore : ∀ entry ∈ before, Settable entry)
    {fault : Fault} (h : ∀ d, set location d entry.1.toText entry.2 = .error fault) :
    setAll location d (before ++ entry :: after) = .error fault := by
  obtain ⟨d', hall, -, -⟩ := setAll_of_settable location hbefore d
  rw [setAll_append hall, setAll, h]

end Section

/-- Either all entries give options, or there is a first one that does not. -/
theorem settable_or_exists (options : List (DatumKey × Datum Foreign)) :
    (∀ entry ∈ options, Settable entry) ∨ ∃ before entry after,
      options = before ++ entry :: after ∧ (∀ entry ∈ before, Settable entry) ∧
        ¬ Settable entry := by
  induction options with
  | nil => exact .inl (List.forall_mem_nil _)
  | cons entry rest ih =>
    by_cases hentry : Settable entry
    · rcases ih with hrest | ⟨before, bad, after, rfl, hbefore, hbad⟩
      · exact .inl (List.forall_mem_cons.mpr ⟨hentry, hrest⟩)
      · exact .inr ⟨entry :: before, bad, after, rfl,
          List.forall_mem_cons.mpr ⟨hentry, hbefore⟩, hbad⟩
    · exact .inr ⟨[], entry, rest, rfl, List.forall_mem_nil _, hentry⟩

/-! ### The file -/

/-- The tool table of a file is no table. -/
def ToolMisfit (entries : List (DatumKey × Datum Foreign)) : Prop :=
  ∃ value, Datum.entry? "tool" entries = some value ∧ ∀ tools, value ≠ .map tools

/-- The section of a file is no table. -/
def SectionMisfit (entries : List (DatumKey × Datum Foreign)) : Prop :=
  ∃ tools value, Datum.entry? "tool" entries = some (.map tools) ∧
    Datum.entry? "langkit" tools = some value ∧ ∀ options, value ≠ .map options

/-- **The entries that a file offers as options**: those of its section, none if it has no
section. -/
inductive Offers (entries : List (DatumKey × Datum Foreign)) :
    List (DatumKey × Datum Foreign) → Prop where
  | toolMissing (h : Datum.entry? "tool" entries = none) : Offers entries []
  | sectionMissing {tools : List (DatumKey × Datum Foreign)}
      (htool : Datum.entry? "tool" entries = some (.map tools))
      (h : Datum.entry? "langkit" tools = none) : Offers entries []
  | table {tools options : List (DatumKey × Datum Foreign)}
      (htool : Datum.entry? "tool" entries = some (.map tools))
      (h : Datum.entry? "langkit" tools = some (.map options)) : Offers entries options

/-- **A draft has the options of some entries**: the last text or number under each key, with the
paths among the texts starting at a directory. No text of it is empty. -/
structure Reflects (d : Draft) (base : DiskPath)
    (options : List (DatumKey × Datum Foreign)) : Prop where
  text (setting : Setting) : d.text? setting = (last? (textUnder setting.key) options).map fun t =>
    .value (if setting ∈ Setting.paths then Options.anchor base t else t)
  debounce : d.debounce = (last? (numberUnder Setting.debounce.key) options).map .value
  text_ne_nil (setting : Setting) : d.text? setting ≠ some (.value [])

section File
variable {path : DiskPath} {entries options : List (DatumKey × Datum Foreign)}

theorem misfit_or_offers (entries : List (DatumKey × Datum Foreign)) :
    ToolMisfit entries ∨ SectionMisfit entries ∨ ∃ options, Offers entries options := by
  cases htool : Datum.entry? "tool" entries with
  | none => exact .inr (.inr ⟨[], .toolMissing htool⟩)
  | some tool =>
    cases tool with
    | map tools =>
      cases hsection : Datum.entry? "langkit" tools with
      | none => exact .inr (.inr ⟨[], .sectionMissing htool hsection⟩)
      | some value =>
        cases value with
        | map options => exact .inr (.inr ⟨options, .table htool hsection⟩)
        | _ => exact .inr (.inl ⟨tools, _, htool, hsection, nofun⟩)
    | _ => exact .inl ⟨_, htool, nofun⟩

theorem outcome_of_toolMisfit (h : ToolMisfit entries) :
    (ofEntries path entries).outcome = .error (.crash .toolNotTable) := by
  obtain ⟨value, htool, hvalue⟩ := h
  unfold ofEntries section?
  rw [htool]
  cases value with
  | map tools => exact absurd rfl (hvalue tools)
  | _ => rfl

theorem outcome_of_sectionMisfit (h : SectionMisfit entries) : (ofEntries path entries).outcome =
    .error (.problem (OptionsFault.sectionNotTable.problem (some path.toText))) := by
  obtain ⟨tools, value, htool, hsection, hvalue⟩ := h
  unfold ofEntries section?
  simp only [htool, hsection]
  cases value with
  | map options => exact absurd rfl (hvalue options)
  | _ => rfl

theorem outcome_of_offers (h : Offers entries options) : (ofEntries path entries).outcome =
    (setAll path.toText {} options).map (·.anchored path.parent) := by
  unfold ofEntries section?
  cases h with
  | toolMissing h =>
    simp only [h]
    rfl
  | sectionMissing htool h =>
    simp only [htool, h]
    rfl
  | table htool h =>
    simp only [htool, h, Report.outcome_bind]
    cases hall : setAll path.toText {} options with
    | error fault => rfl
    | ok d => rfl

/-! ### Paths of options -/

theorem toText_ne_nil {p : DiskPath} (h : [] ∉ p.parts) : p.toText ≠ [] := by
  unfold DiskPath.toText
  split_ifs with hp
  · exact List.cons_ne_nil _ _
  · obtain ⟨start, parts⟩ := p
    cases start with
    | here =>
      cases parts with
      | nil => exact absurd ⟨rfl, rfl⟩ hp
      | cons part parts =>
        rw [List.mem_cons, not_or] at h
        cases parts with
        | nil => simpa [PathStart.toText, Text.join] using Ne.symm h.1
        | cons next parts => simp [PathStart.toText, Text.join, List.intercalate_cons_cons]
    | root => exact List.cons_ne_nil _ _
    | doubleRoot => exact List.cons_ne_nil _ _

theorem nil_not_mem_parts (t : Text) : [] ∉ (DiskPath.ofText t).parts := by
  intro hmem
  simpa using (List.mem_filter.mp hmem).2

theorem anchor_ne_nil {base : DiskPath} (h : [] ∉ base.parts) (t : Text) :
    Options.anchor base t ≠ [] := by
  refine toText_ne_nil ?_
  unfold DiskPath.join
  split_ifs
  · exact nil_not_mem_parts t
  · exact fun hmem => (List.mem_append.mp hmem).elim h (nil_not_mem_parts t)

/-! ### How the reading ends -/

theorem last?_textUnder_ne_nil (hall : ∀ entry ∈ options, Settable entry) (key : Text) :
    last? (textUnder key) options ≠ some [] := by
  intro hlast
  obtain ⟨⟨k, value⟩, hmem, hgiven⟩ := List.exists_of_findSome?_eq_some hlast
  obtain ⟨⟨setting, -, haccepts⟩, -⟩ := hall _ (List.mem_reverse.mp hmem)
  cases value with
  | text t =>
    have ht : t = [] := by
      unfold textUnder at hgiven
      simp only at hgiven
      split_ifs at hgiven
      exact Option.some.inj hgiven
    unfold Setting.Accepts at haccepts
    split_ifs at haccepts
    · obtain ⟨n, ⟨⟩⟩ := haccepts
    · obtain ⟨u, hu, ⟨⟩⟩ := haccepts
      exact hu ht
  | _ => cases hgiven

theorem outcome_of_settable (hpath : [] ∉ path.parts) (h : Offers entries options)
    (hall : ∀ entry ∈ options, Settable entry) :
    ∃ d, (ofEntries path entries).outcome = .ok d ∧ Reflects d path.parent options := by
  obtain ⟨d, hset, htext, hdebounce⟩ := setAll_of_settable path.toText hall {}
  have htext' : ∀ setting : Setting, d.text? setting =
      (last? (textUnder setting.key) options).map .value := by
    intro setting
    have hnone : Draft.text? {} setting = none := by cases setting <;> rfl
    rw [htext, hnone, Option.or_none]
  have hparent : [] ∉ path.parent.parts := fun hmem => hpath (List.dropLast_subset _ hmem)
  have hanchored : ∀ setting : Setting, (d.anchored path.parent).text? setting =
      (last? (textUnder setting.key) options).map fun t =>
        .value (if setting ∈ Setting.paths then Options.anchor path.parent t else t) := by
    intro setting
    rw [Draft.text?_anchored, htext']
    split_ifs
    · exact Option.map_map _ _ _
    · rfl
  refine ⟨d.anchored path.parent, ?_, hanchored, ?_, fun setting => ?_⟩
  · rw [outcome_of_offers h, hset]
    rfl
  · exact hdebounce.trans (Option.or_none)
  · rw [hanchored]
    intro hempty
    obtain ⟨t, hlast, ht⟩ := Option.map_eq_some_iff.mp hempty
    have ht := Given.value.inj ht
    split_ifs at ht
    · exact anchor_ne_nil hparent t ht
    · exact last?_textUnder_ne_nil hall _ (ht ▸ hlast)

theorem outcome_of_not_settable {before after : List (DatumKey × Datum Foreign)}
    {entry : DatumKey × Datum Foreign} (h : Offers entries (before ++ entry :: after))
    (hbefore : ∀ entry ∈ before, Settable entry) {fault : Fault}
    (hset : ∀ d, set path.toText d entry.1.toText entry.2 = .error fault) :
    (ofEntries path entries).outcome = .error fault := by
  rw [outcome_of_offers h, setAll_of_not_settable hbefore hset]
  rfl

/-- **The ways in which the reading of a file ends**, told by its entries. -/
inductive Ending (path : DiskPath) (entries : List (DatumKey × Datum Foreign)) :
    Except Fault Draft → Prop where
  | draft {options : List (DatumKey × Datum Foreign)} {d : Draft} (h : Offers entries options)
      (hall : ∀ entry ∈ options, Settable entry) (hd : Reflects d path.parent options) :
      Ending path entries (.ok d)
  | sectionMisfit (h : SectionMisfit entries) :
      Ending path entries
        (.error (.problem (OptionsFault.sectionNotTable.problem (some path.toText))))
  | improper {before after : List (DatumKey × Datum Foreign)} {entry : DatumKey × Datum Foreign}
      (h : Offers entries (before ++ entry :: after)) (hbefore : ∀ e ∈ before, Settable e)
      (hentry : ¬ Proper entry) :
      Ending path entries (.error (.problem ((complaint entry).problem (some path.toText))))
  | toolMisfit (h : ToolMisfit entries) : Ending path entries (.error (.crash .toolNotTable))
  | oversized {before after : List (DatumKey × Datum Foreign)} {entry : DatumKey × Datum Foreign}
      (h : Offers entries (before ++ entry :: after)) (hbefore : ∀ e ∈ before, Settable e)
      (hentry : Oversized entry) : Ending path entries (.error (.crash .numberOutOfRange))

theorem ending_outcome (hpath : [] ∉ path.parts) :
    Ending path entries (ofEntries path entries).outcome := by
  rcases misfit_or_offers entries with htool | hsection | ⟨options, h⟩
  · rw [outcome_of_toolMisfit htool]
    exact .toolMisfit htool
  · rw [outcome_of_sectionMisfit hsection]
    exact .sectionMisfit hsection
  rcases settable_or_exists options with hall | ⟨before, entry, after, rfl, hbefore, hentry⟩
  · obtain ⟨d, hd, hreflects⟩ := outcome_of_settable hpath h hall
    rw [hd]
    exact .draft h hall hreflects
  by_cases hproper : Proper entry
  · have hsize : Oversized entry := by_contra fun hsize => hentry ⟨hproper, hsize⟩
    rw [outcome_of_not_settable h hbefore fun d => set_of_oversized _ d hsize]
    exact .oversized h hbefore hsize
  · rw [outcome_of_not_settable h hbefore fun d => set_of_not_proper _ d hproper]
    exact .improper h hbefore hproper

/-- The reading of a file that decodes ends as its entries say. -/
theorem leads_load {s t : Machine} {content : Bytes} {text : Text}
    (hread : Leads (Host.readBytes path) s (.ok content) t) (htext : Utf8.decode content = .ok text)
    (hentries : Toml.decode text = .ok entries) :
    ∃ s', Leads (load path) s (ofEntries path entries).outcome s' := by
  have hcontent : (ofContent path content).outcome = (ofEntries path entries).outcome := by
    have hok : entriesOf path content = .ok entries := by
      unfold entriesOf
      simp only [htext, hentries]
    unfold ofContent
    rw [Report.outcome_bind, hok]
    rfl
  have hreport : Leads (Host.report (ofContent path content)) t (ofEntries path entries).outcome
      { t with notices := t.notices ++ (ofContent path content).notices } :=
    Host.leads_report.mpr ⟨hcontent.symm, rfl⟩
  exact ⟨_, Machine.leads_bind.mpr
    (.inl ⟨content, t, Machine.leads_adapt_ok.mpr hread, hreport⟩)⟩

end File

/-- **How the reading of a configuration file ends**, for a file that can be read and decodes to
some entries. It gives options exactly if every entry that the file offers gives one, and then those
of the last entry under each key. What is refused is refused with the place of the file: a section
that is no table, and otherwise the first entry that gives no option, if it is not proper. The reading
crashes exactly if the tool table is no table, or if the first entry that gives no option is a whole
number beyond double precision for the pause. -/
theorem load_of_decode {s t : Machine} {name text : Text} {content : Bytes}
    {entries : List (DatumKey × Datum Foreign)}
    (hread : Leads (Host.readBytes (.ofText name)) s (.ok content) t)
    (htext : Utf8.decode content = .ok text) (hentries : Toml.decode text = .ok entries) :
    ∃ r s', Leads (load (.ofText name)) s r s' ∧
      ((∃ d, r = .ok d) ↔
        ∃ options, Offers entries options ∧ ∀ entry ∈ options, Settable entry) ∧
      (∀ d, r = .ok d → ∃ options, Offers entries options ∧
        Reflects d (DiskPath.ofText name).parent options) ∧
      (∀ problem, r = .error (.problem problem) ↔ ∃ fault : OptionsFault,
        problem = fault.problem (some (DiskPath.ofText name).toText) ∧
          (SectionMisfit entries ∧ fault = .sectionNotTable ∨
            ∃ before entry after, Offers entries (before ++ entry :: after) ∧
              (∀ e ∈ before, Settable e) ∧ ¬ Proper entry ∧ fault = complaint entry)) ∧
      ∀ crash, r = .error (.crash crash) ↔ ToolMisfit entries ∧ crash = .toolNotTable ∨
        ∃ before entry after, Offers entries (before ++ entry :: after) ∧
          (∀ e ∈ before, Settable e) ∧ Oversized entry ∧ crash = .numberOutOfRange := by
  have hpath := nil_not_mem_parts name
  obtain ⟨s', hload⟩ := leads_load hread htext hentries
  have hending : Ending (.ofText name) entries _ := ending_outcome hpath
  refine ⟨_, s', hload, ⟨?_, ?_⟩, ?_, fun problem => ⟨?_, ?_⟩, fun crash => ⟨?_, ?_⟩⟩
  · rintro ⟨d, hd⟩
    rw [hd] at hending
    cases hending with
    | draft h hall _ => exact ⟨_, h, hall⟩
  · rintro ⟨options, h, hall⟩
    obtain ⟨d, hd, -⟩ := outcome_of_settable hpath h hall
    exact ⟨d, hd⟩
  · intro d hd
    rw [hd] at hending
    cases hending with
    | draft h _ hreflects => exact ⟨_, h, hreflects⟩
  · intro hproblem
    rw [hproblem] at hending
    cases hending with
    | sectionMisfit h => exact ⟨_, rfl, .inl ⟨h, rfl⟩⟩
    | improper h hbefore hentry => exact ⟨_, rfl, .inr ⟨_, _, _, h, hbefore, hentry, rfl⟩⟩
  · rintro ⟨_, rfl, ⟨h, rfl⟩ | ⟨before, entry, after, h, hbefore, hentry, rfl⟩⟩
    · exact outcome_of_sectionMisfit h
    · exact outcome_of_not_settable h hbefore fun d => set_of_not_proper _ d hentry
  · intro hcrash
    rw [hcrash] at hending
    cases hending with
    | toolMisfit h => exact .inl ⟨h, rfl⟩
    | oversized h hbefore hentry => exact .inr ⟨_, _, _, h, hbefore, hentry, rfl⟩
  · rintro (⟨h, rfl⟩ | ⟨before, entry, after, h, hbefore, hentry, rfl⟩)
    · exact outcome_of_toolMisfit h
    · exact outcome_of_not_settable h hbefore fun d => set_of_oversized _ d hentry

/-- A machine with a configuration file of a given text in a directory. -/
def machineWith (text : Text) : Machine where
  disk := { nodes := [(["app"], .directory),
    (["app", fileName], .file (text.flatMap Utf8.encodePoint) 0)] }

theorem leads_readBytes_machineWith (text : Text) : Leads
    (Host.readBytes (.ofText "app/pyproject.toml")) (machineWith text)
    (.ok (text.flatMap Utf8.encodePoint)) (machineWith text) :=
  Machine.leads_ask_of_eq_ok rfl rfl

/-- A section that gives a path and a pause. -/
def pathAndPause : Text := "[tool.langkit]\nlang-dir = \"i18n\"\ndebounce = 2\n"

theorem decode_pathAndPause : Toml.decode pathAndPause = .ok [(.text "tool", .map [(.text "langkit",
    .map [(.text "lang-dir", .text "i18n"), (.text "debounce", .number (.int 2))])])] := by
  cbv

theorem load_of_decode_section : ∃ d s',
    Leads (load (.ofText "app/pyproject.toml")) (machineWith pathAndPause) (.ok d) s' ∧
      d.languageDirectory = some (.value "app/i18n") ∧ d.dataPath = none ∧
      d.debounce = some (.value (Binary64.ofQuotient false 2 1)) := by
  let options : List (DatumKey × Datum Foreign) :=
    [(.text "lang-dir", .text "i18n"), (.text "debounce", .number (.int 2))]
  have htext : Utf8.decode (pathAndPause.flatMap Utf8.encodePoint) = .ok pathAndPause :=
    Utf8.decodeFrom_flatMap 0 (by decide)
  have hoffers : Offers [(.text "tool", .map [(.text "langkit", .map options)])] options :=
    .table rfl rfl
  have hdirectory : Settable (.text "lang-dir", .text "i18n") := by
    refine ⟨⟨.languageDirectory, rfl, _, List.cons_ne_nil _ _, rfl⟩, ?_⟩
    rintro ⟨-, n, ⟨⟩, -⟩
  have hdebounce : Settable (.text "debounce", .number (.int 2)) := by
    refine ⟨⟨.debounce, rfl, _, rfl⟩, ?_⟩
    rintro ⟨-, n, ⟨⟩, hn⟩
    have hstep := Binary64.halfStep_pos
    unfold Binary64.overflow at hn
    omega
  have hall : ∀ entry ∈ options, Settable entry :=
    List.forall_mem_cons.mpr ⟨hdirectory, List.forall_mem_singleton.mpr hdebounce⟩
  obtain ⟨r, s', hload, hok, hreflects, -⟩ :=
    load_of_decode (leads_readBytes_machineWith pathAndPause) htext decode_pathAndPause
  obtain ⟨d, rfl⟩ := hok.mpr ⟨options, hoffers, hall⟩
  obtain ⟨options', hoffers', hd⟩ := hreflects d rfl
  obtain rfl : options = options' := by
    cases hoffers' with
    | toolMissing h => cases h
    | sectionMissing htool h =>
      cases htool
      cases h
    | table htool h =>
      cases htool
      cases h
      rfl
  exact ⟨d, s', hload, hd.text .languageDirectory, hd.text .dataPath, hd.debounce⟩

/-- A file that gives a number where the tool table belongs. -/
def numberAsTool : Text := "tool = 5\n"

theorem decode_numberAsTool :
    Toml.decode numberAsTool = .ok [(.text "tool", .number (.int 5))] := by
  cbv

/-- **A tool table that is a number crashes the reading**, although the file is well formed. -/
theorem load_number_as_tool :
    Toml.decode numberAsTool = .ok [(.text "tool", .number (.int 5))] ∧
      ∃ s', Leads (load (.ofText "app/pyproject.toml")) (machineWith numberAsTool)
        (.error (.crash .toolNotTable)) s' := by
  have htext : Utf8.decode (numberAsTool.flatMap Utf8.encodePoint) = .ok numberAsTool :=
    Utf8.decodeFrom_flatMap 0 (by decide)
  have hmisfit : ToolMisfit [(.text "tool", .number (.int 5))] := ⟨_, rfl, nofun⟩
  obtain ⟨s', hload⟩ :=
    leads_load (leads_readBytes_machineWith numberAsTool) htext decode_numberAsTool
  rw [outcome_of_toolMisfit hmisfit] at hload
  exact ⟨decode_numberAsTool, s', hload⟩

end Configuration

end Phrasebook
