import Phrasebook.Diagnostic.Format
import Phrasebook.Proofs.Json.Decode
import Phrasebook.Proofs.Script.Points
import Phrasebook.Proofs.Script.Scan

/-! # What a formatted diagnostic shows

The texts of a diagnostic come from documents. In no form do they leave their line or reach the
terminal: the short form and the JSON object are one line each, the form for people has its header
and a line for each of the location and the hint that is given, and none of these lines holds a
control character that could begin another (`confined_lines`, `confined_json`). So the blank lines
between several diagnostics are the only ones (`paragraphs_formatAll`), and the JSON object decodes
to the fields that have a value (`decode_json`). -/

namespace Phrasebook

/-! ### Control characters -/

namespace Text

/-- The code points that end a line or steer a terminal. -/
def controls : List CodePoint := [CodePoint.lf, CodePoint.cr, CodePoint.tab, CodePoint.ofNat 0x1B]

/-- **A text that stays on its line** and leaves the terminal alone. -/
def Confined (t : Text) : Prop := All (· ∉ controls) t

instance (t : Text) : Decidable t.Confined := inferInstanceAs (Decidable (∀ c ∈ t, _))

theorem Confined.append {t u : Text} (ht : t.Confined) (hu : u.Confined) : (t ++ u).Confined :=
  all_append.mpr ⟨ht, hu⟩

theorem Confined.lf_not_mem {t : Text} (h : t.Confined) : CodePoint.lf ∉ t :=
  fun hmem => h _ hmem List.mem_cons_self

theorem confined_oneLinePoint (c : CodePoint) : (oneLinePoint c).Confined := by
  unfold oneLinePoint
  split_ifs with hlf hcr htab hescape
  · decide
  · decide
  · decide
  · decide
  · have hcontrol : c ∉ controls := by
      have hne : c ≠ CodePoint.ofNat 0x1B := fun h => hescape (congrArg CodePoint.val h)
      simp only [controls, List.mem_cons, List.not_mem_nil, or_false, not_or]
      exact ⟨hlf, hcr, htab, hne⟩
    exact List.forall_mem_singleton.mpr hcontrol

/-- **A field on its line** holds no control character. -/
theorem confined_oneLine (t : Text) : t.oneLine.Confined :=
  all_flatMap.mpr fun c _ => confined_oneLinePoint c

/-- The digits by which a code point is spelled are no control characters. -/
theorem confined_escape (c : CodePoint) : (Numeral.escape c).Confined := by
  have hdigits : ∀ d < 16, CodePoint.ofChar (Nat.digitChar d) ∉ controls := by decide
  have hmark : ∀ d ∈ [CodePoint.backslash, CodePoint.ofChar 'u'], d ∉ controls := by decide
  intro d hd
  rw [escape_eq, List.mem_cons, List.mem_cons, List.mem_map] at hd
  rcases hd with rfl | rfl | ⟨n, hn, rfl⟩
  · exact hmark _ List.mem_cons_self
  · exact hmark _ (List.mem_cons_of_mem _ List.mem_cons_self)
  · refine hdigits n ?_
    simp only [List.mem_cons, List.not_mem_nil, or_false] at hn
    omega

theorem confined_quotedPoint (c : CodePoint) : (quotedPoint c).Confined := by
  have hlow : ∀ d ∈ controls, d.val < 0x20 := by decide
  unfold quotedPoint
  split_ifs with h1 h2 h3 h4 h5 h6 h7 h8
  · decide
  · decide
  · decide
  · decide
  · decide
  · decide
  · decide
  · exact confined_escape c
  · exact List.forall_mem_singleton.mpr fun hcontrol => h8 (hlow c hcontrol)

theorem confined_literal (t : Text) : t.literal.Confined := by
  have hmark : Confined [CodePoint.doubleQuote] := by decide
  exact (hmark.append (all_flatMap.mpr fun c _ => confined_quotedPoint c)).append hmark

/-! ### Blank lines -/

/-- **The pieces of a text between its blank lines**: from the left it is cut at two line feeds side
by side. -/
def paragraphs : Text → List Text
  | [] => [[]]
  | [c] => [[c]]
  | c :: d :: rest =>
    if c = CodePoint.lf ∧ d = CodePoint.lf then [] :: paragraphs rest
    else
      match paragraphs (d :: rest) with
      | [] => [[c]]
      | piece :: pieces => (c :: piece) :: pieces

/-- No line of a text after the first one is empty. -/
def Filled (t : Text) : Prop := [] ∉ (split CodePoint.lf t).tail

theorem paragraphs_cons_cons {c d : CodePoint} {rest piece : Text} {pieces : List Text}
    (h : ¬ (c = CodePoint.lf ∧ d = CodePoint.lf))
    (hrest : paragraphs (d :: rest) = piece :: pieces) :
    paragraphs (c :: d :: rest) = (c :: piece) :: pieces := by
  rw [paragraphs, if_neg h, hrest]

theorem tail_split_cons {separator c : CodePoint} (h : c ≠ separator) (t : Text) :
    (split separator (c :: t)).tail = (split separator t).tail := by
  obtain ⟨piece, pieces, hsplit⟩ := List.exists_cons_of_ne_nil (split_ne_nil separator t)
  rw [split, if_neg h, hsplit]
  rfl

/-- The parts of a filled text that begins with a code point. -/
theorem Filled.of_cons {c : CodePoint} {t : Text} (h : Filled (c :: t)) :
    Filled t ∧ (c = CodePoint.lf → t ≠ [] ∧ ∀ rest, t ≠ CodePoint.lf :: rest) := by
  unfold Filled at h ⊢
  by_cases hc : c = CodePoint.lf
  · rw [split, if_pos hc, List.tail_cons] at h
    refine ⟨fun hmem => h (List.mem_of_mem_tail hmem), fun _ => ⟨?_, ?_⟩⟩
    · rintro rfl
      exact h List.mem_cons_self
    · rintro rest rfl
      rw [split, if_pos rfl] at h
      exact h List.mem_cons_self
  · rw [tail_split_cons hc] at h
    exact ⟨h, fun heq => absurd heq hc⟩

theorem paragraphs_eq_singleton {t : Text} (h : Filled t) : paragraphs t = [t] := by
  induction t with
  | nil => rfl
  | cons c t ih =>
    obtain ⟨ht, hc⟩ := h.of_cons
    cases t with
    | nil => rfl
    | cons d t => exact paragraphs_cons_cons (fun hlf => (hc hlf.1).2 t (hlf.2 ▸ rfl)) (ih ht)

/-- The first blank line after a filled text ends the first piece. -/
theorem paragraphs_append {t : Text} (h : Filled t) (rest : Text) :
    paragraphs (t ++ CodePoint.lf :: CodePoint.lf :: rest) = t :: paragraphs rest := by
  induction t with
  | nil => rw [List.nil_append, paragraphs, if_pos ⟨rfl, rfl⟩]
  | cons c t ih =>
    obtain ⟨ht, hc⟩ := h.of_cons
    have hrest := ih ht
    cases t with
    | nil => exact paragraphs_cons_cons (fun hlf => (hc hlf.1).1 rfl) hrest
    | cons d t => exact paragraphs_cons_cons (fun hlf => (hc hlf.1).2 t (hlf.2 ▸ rfl)) hrest

/-- **Filled texts with blank lines between them** are told apart. -/
theorem paragraphs_join {texts : List Text} (hne : texts ≠ []) (h : ∀ t ∈ texts, Filled t) :
    paragraphs (join [CodePoint.lf, CodePoint.lf] texts) = texts := by
  unfold join
  induction texts with
  | nil => exact absurd rfl hne
  | cons t rest ih =>
    obtain ⟨ht, hrest⟩ := List.forall_mem_cons.mp h
    cases rest with
    | nil => rw [List.intercalate_singleton, paragraphs_eq_singleton ht]
    | cons next others =>
      rw [List.intercalate_cons_cons, List.append_assoc, List.cons_append, List.singleton_append,
        paragraphs_append ht, ih (List.cons_ne_nil _ _) hrest]

theorem filled_of_not_mem {t : Text} (h : CodePoint.lf ∉ t) : Filled t := by
  unfold Filled
  rw [split_of_not_mem h]
  exact List.not_mem_nil

end Text

namespace Diagnostic

/-! ### Lines -/

/-- The number of lines for a field: none if it is missing or empty. -/
def fieldLines (field : Option Text) : Nat := if field.getD [] = [] then 0 else 1

theorem length_lines (color : Bool) (d : Diagnostic) :
    (d.lines color).length = 1 + fieldLines d.location + fieldLines d.hint := by
  have hfield : ∀ (f : Text → Text) (field : Option Text),
      ((field.filter (!·.isEmpty)).map f).toList.length = fieldLines field := by
    rintro f (_ | _ | _) <;> rfl
  unfold lines
  rw [List.length_cons, List.length_append, hfield, hfield, Nat.add_comm, ← Nat.add_assoc]

theorem confined_name (code : DiagnosticCode) : code.name.Confined := by
  cases code <;> decide

theorem exists_of_mem_lines {color : Bool} {d : Diagnostic} {line : Text}
    (h : line ∈ d.lines color) : ∃ beginning rest, line = beginning ++ rest ∧
      beginning ∈ [label color d.severity, []] ∧ rest.Confined ∧ rest ≠ [] := by
  have hfield : ∀ (mark : Text) (field : Option Text), mark.Confined ∧ mark ≠ [] →
      line ∈ ((field.filter (!·.isEmpty)).map fun t => mark ++ t.oneLine).toList →
        line.Confined ∧ line ≠ [] := by
    rintro mark field ⟨hconfined, hne⟩ hline
    obtain ⟨t, -, rfl⟩ := Option.map_eq_some_iff.mp (Option.mem_toList.mp hline)
    exact ⟨hconfined.append (Text.confined_oneLine t), List.append_ne_nil_of_left_ne_nil hne _⟩
  rcases List.mem_cons.mp h with rfl | h
  · let rest : Text := "[" ++ (d.code.name ++ ("]: " ++ d.message.oneLine))
    have hopen : Text.Confined "[" := by decide
    have hclose : Text.Confined "]: " := by decide
    have hrest : rest.Confined :=
      hopen.append ((confined_name d.code).append (hclose.append (Text.confined_oneLine _)))
    refine ⟨label color d.severity, rest, ?_, List.mem_cons_self, hrest, List.cons_ne_nil _ _⟩
    simp only [rest, List.append_assoc]
  · rcases List.mem_append.mp h with h | h
    · exact ⟨[], line, rfl, by simp, hfield _ _ (by decide) h⟩
    · exact ⟨[], line, rfl, by simp, hfield _ _ (by decide) h⟩

/-- **Without colour no line holds a control character.** -/
theorem confined_lines {d : Diagnostic} {line : Text} (h : line ∈ d.lines false) :
    line.Confined := by
  have hname : d.severity.name.Confined := by cases d.severity <;> decide
  obtain ⟨beginning, rest, rfl, hbeginning, hrest, -⟩ := exists_of_mem_lines h
  refine Text.Confined.append ?_ hrest
  rcases List.mem_pair.mp hbeginning with rfl | rfl
  · exact hname
  · exact List.forall_mem_nil _

theorem unbroken_lines {color : Bool} {d : Diagnostic} {line : Text} (h : line ∈ d.lines color) :
    Unbroken line ∧ line ≠ [] := by
  have hlabel : Unbroken (label color d.severity) := by
    cases color <;> cases d.severity <;> decide
  obtain ⟨beginning, rest, rfl, hbeginning, hrest, hne⟩ := exists_of_mem_lines h
  refine ⟨Unbroken.append ?_ hrest.lf_not_mem, List.append_ne_nil_of_right_ne_nil _ hne⟩
  rcases List.mem_pair.mp hbeginning with rfl | rfl
  · exact hlabel
  · exact List.not_mem_nil

theorem split_format (color : Bool) (d : Diagnostic) :
    Text.split CodePoint.lf (d.format .rust color) = d.lines color :=
  Text.split_join (List.cons_ne_nil _ _) fun _ hline => (unbroken_lines hline).1

theorem confined_simple (color : Bool) (d : Diagnostic) : (d.format .simple color).Confined :=
  ((confined_name d.code).append (by decide)).append (Text.confined_oneLine d.message)

/-! ### The JSON object -/

/-- The fields of a diagnostic by name, in the order of the JSON object. -/
def fields (d : Diagnostic) : List (Text × Option Text) :=
  [("code", some d.code.name), ("message", some d.message), ("severity", some d.severity.name),
    ("hint", d.hint), ("location", d.location)]

/-- **The fields that have a value**, as a mapping. -/
def object {α : Type} (d : Diagnostic) : Datum α :=
  .map (d.fields.filterMap fun field => field.2.map fun value => (.text field.1, .text value))

/-- The text of a member of the JSON object. -/
def memberText (m : Text × Text) : Text := m.1.literal ++ ": " ++ m.2.literal

theorem confined_json (color : Bool) (d : Diagnostic) : (d.format .json color).Confined := by
  have hopen : Text.Confined [CodePoint.openBrace] := by decide
  have hclose : Text.Confined [CodePoint.closeBrace] := by decide
  have hcolon : Text.Confined ": " := by decide
  have hcomma : Text.Confined ", " := by decide
  have hmembers : (Text.join ", " (d.members.map memberText)).Confined := by
    refine (all_join hcomma).mpr (List.forall_mem_map.mpr fun m _ => ?_)
    exact ((Text.confined_literal m.1).append hcolon).append (Text.confined_literal m.2)
  exact (hopen.append hmembers).append hclose

/-- The entry that a member of the JSON object stands for. -/
def entry {α : Type} (m : Text × Text) : DatumKey × Datum α := (.text m.1, .text m.2)

theorem object_eq {α : Type} (d : Diagnostic) : d.object (α := α) = .map (d.members.map entry) := by
  obtain ⟨code, message, _ | hint, _ | location, severity⟩ := d <;> rfl

theorem nodup_members (d : Diagnostic) : (d.members.map (·.1)).Nodup := by
  obtain ⟨code, message, _ | hint, _ | location, severity⟩ := d
  · exact (by decide : List.Nodup (["code", "message", "severity"] : List Text))
  · exact (by decide : List.Nodup (["code", "message", "severity", "location"] : List Text))
  · exact (by decide : List.Nodup (["code", "message", "severity", "hint"] : List Text))
  · exact (by decide : List.Nodup (["code", "message", "severity", "hint", "location"] : List Text))

theorem enters_memberText {α : Type} (m : Text × Text) :
    Json.Enters (entry m : DatumKey × Datum α) (memberText m) := by
  have hgap : Json.Gap [CodePoint.space] := List.forall_mem_singleton.mpr rfl
  have henters := Json.enters_of_scans (Json.scans_literal m.1) hgap
    (Json.decodes_literal (α := α) m.2)
  unfold memberText
  rw [List.append_assoc]
  exact henters

/-- **The JSON object decodes to the fields that have a value.** -/
theorem decode_json {α : Type} (color : Bool) (d : Diagnostic) :
    Json.decode (d.format .json color) = .ok (d.object : Datum α) := by
  have hgap : Json.Gap [CodePoint.space] := List.forall_mem_singleton.mpr rfl
  have hnone : Json.Gap [] := List.forall_mem_nil _
  have henters : List.Forall₂ Json.Enters (d.members.map (entry (α := α)))
      (d.members.map memberText) :=
    List.forall₂_map_left_iff.mpr (List.forall₂_map_right_iff.mpr
      (List.forall₂_same.mpr fun m _ => enters_memberText m))
  have hnodup : ((d.members.map (entry (α := α))).map (·.1)).Nodup := by
    have hkeys : (d.members.map (entry (α := α))).map (·.1) =
        (d.members.map (·.1)).map DatumKey.text := by
      rw [List.map_map, List.map_map]
      rfl
    rw [hkeys]
    exact d.nodup_members.map fun _ _ heq => DatumKey.text.inj heq
  rw [object_eq]
  exact Json.decode_of_decodes
    (Json.decodes_braces hgap hnone hnone henters (List.cons_ne_nil _ _) hnodup)

/-! ### Several diagnostics -/

theorem filled_format (form : OutputFormat) (color : Bool) (d : Diagnostic) :
    Text.Filled (d.format form color) := by
  cases form with
  | rust =>
    unfold Text.Filled
    rw [split_format]
    exact fun hmem => (unbroken_lines (List.mem_of_mem_tail hmem)).2 rfl
  | simple => exact Text.filled_of_not_mem (confined_simple color d).lf_not_mem
  | json => exact Text.filled_of_not_mem (confined_json color d).lf_not_mem

/-- **Several diagnostics are told apart** by the blank lines between them. -/
theorem paragraphs_formatAll (form : OutputFormat) (color : Bool) (d : Diagnostic)
    (ds : List Diagnostic) :
    Text.paragraphs (formatAll form color (d :: ds)) = (d :: ds).map (format form color) :=
  Text.paragraphs_join (List.cons_ne_nil _ _)
    (List.forall_mem_map.mpr fun d _ => filled_format form color d)

/-- **No text of a diagnostic leaves its place.** Without colour the short form and the JSON object
are one line without control characters, and so is each line of the form for people, which are one
more than the given fields among the location and the hint. The JSON object decodes to the fields that
have a value, in their order, and several diagnostics in one form are the pieces between the blank
lines. -/
theorem confined_format (α : Type) (d : Diagnostic) (ds : List Diagnostic) :
    (d.format .simple false).Confined ∧
    (Text.split CodePoint.lf (d.format .rust false) = d.lines false ∧
      (d.lines false).length = 1 + fieldLines d.location + fieldLines d.hint ∧
      ∀ line ∈ d.lines false, line.Confined) ∧
    ((d.format .json false).Confined ∧
      Json.decode (d.format .json false) = .ok (d.object : Datum α)) ∧
    ∀ form color,
      Text.paragraphs (formatAll form color (d :: ds)) = (d :: ds).map (format form color) :=
  ⟨confined_simple false d,
    ⟨split_format false d, length_lines false d, fun _ hline => confined_lines hline⟩,
    ⟨confined_json false d, decode_json false d⟩,
    fun form color => paragraphs_formatAll form color d ds⟩

end Diagnostic

end Phrasebook
