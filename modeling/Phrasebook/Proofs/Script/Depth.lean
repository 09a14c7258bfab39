import Phrasebook.Proofs.Document.Written
import Phrasebook.Proofs.Json.Token
import Phrasebook.Proofs.Script.Layout

/-! # Layout by depth

The script of a value is put together from the inside out: each literal indents the script of its
entries once more, line by line. Written from the outside in, with the depth carried along, the same
value has the same text (`render_toCode`), because neither quoted texts nor numbers break a line. Both
ways fail for a whole number that has too many digits, and for nothing else. -/

namespace Phrasebook

/-! ### Numbers -/

theorem Unbroken.of_subset {t u : Text} (h : Unbroken t) (hsubset : u ⊆ t) : Unbroken u :=
  fun hmem => h (hsubset hmem)

theorem Unbroken.ite {p : Prop} [Decidable p] {t u : Text} (ht : Unbroken t) (hu : Unbroken u) :
    Unbroken (if p then t else u) := by
  split_ifs
  · exact ht
  · exact hu

theorem unbroken_ofNat (n : Nat) : Unbroken (Numeral.ofNat n) := by
  intro hmem
  cases Json.isDigit_of_mem_ofNat hmem

theorem unbroken_ofInt (n : Int) : Unbroken (Numeral.ofInt n) := by
  have hminus : Unbroken [CodePoint.ofChar '-'] := by decide
  cases n with
  | ofNat n => exact unbroken_ofNat n
  | negSucc n => exact hminus.append (unbroken_ofNat (n + 1))

theorem unbroken_zeros (n : Nat) : Unbroken (Decimal.zeros n) := by
  intro hmem
  cases List.eq_of_mem_replicate hmem

theorem unbroken_significant (n : Nat) : Unbroken (Decimal.significant n) := by
  refine (unbroken_ofNat n).of_subset fun c hc => ?_
  exact List.mem_reverse.mp ((List.dropWhile_sublist _).subset (List.mem_reverse.mp hc))

theorem unbroken_layOut {digits : Text} (h : Unbroken digits) (exponent : Int) :
    Unbroken (Decimal.layOut digits exponent) := by
  have htake : ∀ n, Unbroken (digits.take n) := fun n => h.of_subset (List.take_subset n digits)
  have hdrop : ∀ n, Unbroken (digits.drop n) := fun n => h.of_subset (List.drop_subset n digits)
  have hpoint : Unbroken "." := by decide
  unfold Decimal.layOut
  refine .ite (.ite ?_ (.ite ?_ ?_)) ?_
  · have hzero : Unbroken "0." := by decide
    exact (hzero.append (unbroken_zeros _)).append h
  · have hend : Unbroken ".0" := by decide
    exact (h.append (unbroken_zeros _)).append hend
  · exact ((htake _).append hpoint).append (hdrop _)
  · have hfraction : Unbroken (if digits.length ≤ 1 then [] else "." ++ digits.drop 1) :=
      .ite List.not_mem_nil (hpoint.append (hdrop 1))
    have hmark : Unbroken "e" := by decide
    have hsign : Unbroken (if exponent < 0 then "-" else "+") := .ite (by decide) (by decide)
    exact (((((htake 1).append hfraction).append hmark).append hsign).append
      (unbroken_zeros _)).append (unbroken_ofNat _)

theorem unbroken_numberScript {n : Number} {t : Text} (h : Value.numberScript n = .ok t) :
    Unbroken t := by
  cases n with
  | int n =>
    have hwrite : Numeral.write n = .ok t := h
    unfold Numeral.write at hwrite
    split_ifs at hwrite
    obtain rfl := Except.ok.inj hwrite
    exact unbroken_ofInt n
  | float x =>
    cases x with
    | nan =>
      obtain rfl : "NaN" = t := Except.ok.inj h
      decide
    | infinite negative =>
      obtain rfl := Except.ok.inj h
      exact .ite (by decide) (by decide)
    | finite negative mantissa exponent =>
      obtain rfl := Except.ok.inj h
      have hsign : Unbroken (if negative then "-" else []) := .ite (by decide) List.not_mem_nil
      have hzero : Unbroken "0.0" := by decide
      exact .ite (hsign.append hzero) (hsign.append (unbroken_layOut (unbroken_significant _) _))

namespace Value

/-! ### The layout -/

/-- A line break and the indentation of a depth: two spaces a level. -/
def lineBreak (depth : Nat) : Text := CodePoint.lf :: List.replicate (2 * depth) CodePoint.space

/-- The entries of a literal between its brackets, one on each line and a level deeper than the
brackets. -/
def block (depth : Nat) (opening closing : CodePoint) : List Text → Text
  | [] => [opening, closing]
  | entries => [opening] ++ lineBreak (depth + 1) ++
      Text.join ("," ++ lineBreak (depth + 1)) entries ++ lineBreak depth ++ [closing]

/-- The script of a property name. -/
def nameText : Code.PropertyName → Text
  | .text t => t.quoted
  | .raw f => f.render

mutual

/-- **The text of a value at a depth.** -/
def layout (depth : Nat) : Value → Except Crash Text
  | .null => .ok "null"
  | .bool b => .ok (if b then "true" else "false")
  | .number n => numberScript n
  | .text t => .ok t.quoted
  | .raw f => .ok f.render
  | .array items => (layoutItems (depth + 1) items).map
      (block depth (CodePoint.ofChar '[') (CodePoint.ofChar ']'))
  | .object entries => (layoutEntries (depth + 1) entries).map
      (block depth CodePoint.openBrace CodePoint.closeBrace)

/-- The texts of the items of an array at a depth. -/
def layoutItems (depth : Nat) : List Value → Except Crash (List Text)
  | [] => .ok []
  | item :: rest => do
    let text ← layout depth item
    return text :: (← layoutItems depth rest)

/-- The texts of the properties of an object at a depth. -/
def layoutEntries (depth : Nat) : List (Code.PropertyName × Value) → Except Crash (List Text)
  | [] => .ok []
  | (name, value) :: rest => do
    let text ← layout depth value
    return (nameText name ++ ": " ++ text) :: (← layoutEntries depth rest)

end

theorem layoutItems_eq_mapM (depth : Nat) (items : List Value) :
    layoutItems depth items = items.mapM (layout depth) := by
  induction items with
  | nil => rfl
  | cons item rest ih =>
    rw [layoutItems, ih, Except.mapM_cons]
    rfl

theorem layoutEntries_eq_mapM (depth : Nat) (entries : List (Code.PropertyName × Value)) :
    layoutEntries depth entries = entries.mapM fun entry =>
      (layout depth entry.2).map (nameText entry.1 ++ ": " ++ ·) := by
  induction entries with
  | nil => rfl
  | cons entry rest ih =>
    rw [layoutEntries, ih, Except.mapM_cons]
    cases layout depth entry.2 <;> rfl

theorem stringifyItems_eq_mapM (overrides : Code.NameOverrides) (items : List Value) :
    stringifyItems overrides items =
      items.mapM fun item => (toCode overrides item).map Fragment.code := by
  induction items with
  | nil => rfl
  | cons item rest ih =>
    rw [stringifyItems, ih, Except.mapM_cons]
    cases toCode overrides item <;> rfl

theorem stringifyEntries_eq_mapM (overrides : Code.NameOverrides)
    (entries : List (Code.PropertyName × Value)) : stringifyEntries overrides entries =
      entries.mapM fun entry =>
        (toCode overrides entry.2).map fun code => (entry.1, Fragment.code code) := by
  induction entries with
  | nil => rfl
  | cons entry rest ih =>
    rw [stringifyEntries, ih, Except.mapM_cons]
    cases toCode overrides entry.2 <;> rfl

/-- **A value without raw script**, at any nesting. -/
inductive Rawless : Value → Prop where
  | null : Rawless .null
  | bool (b : Bool) : Rawless (.bool b)
  | number (n : Number) : Rawless (.number n)
  | text (t : Text) : Rawless (.text t)
  | array {items : List Value} (h : ∀ item ∈ items, Rawless item) : Rawless (.array items)
  | object {entries : List (Code.PropertyName × Value)}
      (hnames : ∀ entry ∈ entries, ∃ name, entry.1 = .text name)
      (h : ∀ entry ∈ entries, Rawless entry.2) : Rawless (.object entries)

/-- **A whole number in the value has too many digits.** -/
inductive HoldsOverlong : Value → Prop where
  | number {n : Int} (h : ¬Numeral.Writable n) : HoldsOverlong (.number (.int n))
  | item {items : List Value} {item : Value} (hitem : item ∈ items) (h : HoldsOverlong item) :
      HoldsOverlong (.array items)
  | entry {entries : List (Code.PropertyName × Value)} {entry : Code.PropertyName × Value}
      (hentry : entry ∈ entries) (h : HoldsOverlong entry.2) : HoldsOverlong (.object entries)

theorem holdsOverlong_array {items : List Value} :
    HoldsOverlong (.array items) ↔ ∃ item ∈ items, HoldsOverlong item := by
  constructor
  · rintro (_ | ⟨hitem, h⟩)
    exact ⟨_, hitem, h⟩
  · rintro ⟨item, hitem, h⟩
    exact .item hitem h

theorem holdsOverlong_object {entries : List (Code.PropertyName × Value)} :
    HoldsOverlong (.object entries) ↔ ∃ entry ∈ entries, HoldsOverlong entry.2 := by
  constructor
  · rintro (_ | _ | ⟨hentry, h⟩)
    exact ⟨_, hentry, h⟩
  · rintro ⟨entry, hentry, h⟩
    exact .entry hentry h

/-- **A value has script unless a whole number in it has too many digits.** -/
theorem Rawless.toCode_eq_error {v : Value} (h : Rawless v) (overrides : Code.NameOverrides)
    (c : Crash) :
    v.toCode overrides = .error c ↔ c = .integerUnwritable ∧ v.HoldsOverlong := by
  induction h generalizing c with
  | null | bool | text =>
    rw [toCode]
    exact ⟨nofun, nofun⟩
  | number n =>
    rw [toCode, Except.map_eq_error]
    cases n with
    | int n =>
      refine Numeral.write_eq_error.trans (and_congr_right fun _ => ⟨.number, ?_⟩)
      rintro ⟨h⟩
      exact h
    | float x => cases x <;> exact ⟨nofun, nofun⟩
  | array _ ih =>
    rw [toCode, Except.map_eq_error, stringifyItems_eq_mapM, holdsOverlong_array]
    exact Except.mapM_eq_error (fun item hitem e => Except.map_eq_error.trans (ih item hitem e)) c
  | object _ _ ih =>
    rw [toCode, Except.map_eq_error, stringifyEntries_eq_mapM, holdsOverlong_object]
    exact Except.mapM_eq_error (fun entry hentry e => Except.map_eq_error.trans (ih entry hentry e)) c

/-! ### Indentation -/

theorem indentUnit_eq : Code.indentUnit = List.replicate 2 CodePoint.space := rfl

theorem padding_eq (depth : Nat) :
    Code.padding depth = List.replicate (2 * depth) CodePoint.space := by
  unfold Code.padding
  rw [indentUnit_eq, Int.toNat_natCast, List.flatten_replicate_replicate, Nat.mul_comm]

theorem padding_succ (depth : Nat) :
    Code.padding (depth + 1 : Nat) = Code.padding depth ++ Code.indentUnit := by
  rw [padding_eq, padding_eq, indentUnit_eq, List.replicate_append_replicate]
  rfl

theorem padAfterBreaks_piece {t : Text} (h : Unbroken t) (pad : Text) :
    Code.padAfterBreaks pad (Code.mk [t]).render = t := by
  have hrender : (Code.mk [t]).render = t := List.append_nil t
  rw [hrender, h.padAfterBreaks]

/-- A literal as it stands in indented script. -/
theorem padAfterBreaks_block {opening closing : CodePoint} (hopening : opening ≠ CodePoint.lf)
    (hclosing : closing ≠ CodePoint.lf) (depth : Nat) {α : Type} (text : α → Text) (x : α)
    (rest : List α) :
    Code.padAfterBreaks (Code.padding depth) (opening :: Code.firstBreak ++
        Text.join Code.entryBreak ((x :: rest).map text) ++ [CodePoint.lf, closing]) =
      block depth opening closing
        ((x :: rest).map fun x => Code.padAfterBreaks (Code.padding depth) (text x)) := by
  have hentry : Code.entryGap (Code.padding depth) = lineBreak (depth + 1) := by
    unfold Code.entryGap lineBreak
    rw [← padding_succ, padding_eq]
  have hlast : Code.lastGap (Code.padding depth) = lineBreak depth := by
    unfold Code.lastGap lineBreak
    rw [padding_eq]
  rw [Code.padAfterBreaks_entries hopening hclosing, hentry, hlast, List.map_map, List.map_cons,
    List.map_cons, block]
  · simp only [List.append_assoc, List.singleton_append]
    rfl
  · exact List.cons_ne_nil _ _

/-- An array literal as it stands in indented script. -/
theorem padAfterBreaks_arrayScript (depth : Nat) (items : List Fragment) :
    Code.padAfterBreaks (Code.padding depth) (arrayScript items).render =
      block depth (CodePoint.ofChar '[') (CodePoint.ofChar ']')
        (items.map fun f => Code.padAfterBreaks (Code.padding (depth + 1 : Nat)) f.render) := by
  cases items with
  | nil => rfl
  | cons f rest =>
    rw [Code.render_arrayScript]
    refine (padAfterBreaks_block (by decide) (by decide) depth _ f rest).trans ?_
    refine congrArg (block depth _ _) (List.map_congr_left fun f _ => ?_)
    rw [padding_succ]
    exact Code.padAfterBreaks_indent _ f

/-- An object literal as it stands in indented script. -/
theorem padAfterBreaks_object (depth : Nat) {properties : List (Code.PropertyName × Fragment)}
    (hnames : ∀ p ∈ properties, ∃ name, p.1 = .text name) :
    Code.padAfterBreaks (Code.padding depth) (Code.object properties).render =
      block depth CodePoint.openBrace CodePoint.closeBrace (properties.map fun p => nameText p.1 ++
        ": " ++ Code.padAfterBreaks (Code.padding (depth + 1 : Nat)) p.2.render) := by
  cases properties with
  | nil => rfl
  | cons p rest =>
    rw [Script.render_object]
    refine (padAfterBreaks_block (by decide) (by decide) depth _ p rest).trans ?_
    refine congrArg (block depth _ _) (List.map_congr_left fun p hp => ?_)
    obtain ⟨name, hname⟩ := hnames p hp
    have hquoted : nameText p.1 = name.quoted := by
      rw [hname]
      rfl
    rw [Script.padAfterBreaks_property hname, hquoted, padding_succ, List.append_assoc]
    rfl

/-- The names of the entries of an object are those of its properties. -/
theorem map_fst_stringifyEntries {overrides : Code.NameOverrides}
    {entries : List (Code.PropertyName × Value)} {properties : List (Code.PropertyName × Fragment)}
    (h : stringifyEntries overrides entries = .ok properties) :
    properties.map (·.1) = entries.map (·.1) := by
  induction entries generalizing properties with
  | nil =>
    cases h
    rfl
  | cons entry rest ih =>
    rw [stringifyEntries] at h
    obtain ⟨code, -, h⟩ := Except.bind_eq_ok.mp h
    obtain ⟨others, hothers, h⟩ := Except.bind_eq_ok.mp h
    cases h
    rw [List.map_cons, List.map_cons, ih hothers]

/-- **Indented script is script so many levels deeper.** -/
theorem Rawless.padAfterBreaks_toCode {v : Value} (h : Rawless v) (depth : Nat) :
    (v.toCode []).map (fun code => Code.padAfterBreaks (Code.padding depth) code.render) =
      v.layout depth := by
  -- For all depths at once: the entries of a literal stand one level deeper than its brackets.
  induction h generalizing depth with
  | null =>
    rw [toCode, layout]
    exact congrArg Except.ok (padAfterBreaks_piece (by decide) _)
  | bool b =>
    rw [toCode, layout]
    exact congrArg Except.ok (padAfterBreaks_piece (by cases b <;> decide) _)
  | number n =>
    rw [toCode, layout]
    cases hscript : numberScript n with
    | error c => rfl
    | ok t => exact congrArg Except.ok (padAfterBreaks_piece (unbroken_numberScript hscript) _)
  | text t =>
    rw [toCode, layout]
    exact congrArg Except.ok (padAfterBreaks_piece (unbroken_quoted t) _)
  | @array items h ih =>
    have hitems : (stringifyItems [] items).map (List.map fun f =>
        Code.padAfterBreaks (Code.padding (depth + 1 : Nat)) f.render) =
          layoutItems (depth + 1) items := by
      rw [stringifyItems_eq_mapM, layoutItems_eq_mapM]
      exact Except.map_mapM fun item hitem => (Except.map_map _ _ _).trans (ih item hitem _)
    rw [toCode, layout, ← hitems]
    cases stringifyItems [] items with
    | error c => rfl
    | ok fragments => exact congrArg Except.ok (padAfterBreaks_arrayScript depth fragments)
  | @object entries hnames h ih =>
    have hentries : (stringifyEntries [] entries).map (List.map fun p => nameText p.1 ++ ": " ++
        Code.padAfterBreaks (Code.padding (depth + 1 : Nat)) p.2.render) =
          layoutEntries (depth + 1) entries := by
      rw [stringifyEntries_eq_mapM, layoutEntries_eq_mapM]
      refine Except.map_mapM fun entry hentry => ?_
      rw [Except.map_map, ← ih entry hentry, Except.map_map]
      rfl
    rw [toCode, layout, ← hentries]
    cases hproperties : stringifyEntries [] entries with
    | error c => rfl
    | ok properties =>
      have hnames' : ∀ n ∈ properties.map (·.1), ∃ name, n = Code.PropertyName.text name := by
        rw [map_fst_stringifyEntries hproperties]
        exact List.forall_mem_map.mpr hnames
      exact congrArg Except.ok (padAfterBreaks_object depth fun p hp =>
        hnames' p.1 (List.mem_map_of_mem hp))

/-- **Layout by indentation is layout by depth.** The script of a value without raw script is the
text of the value at the depth zero, and indented it is the text at the depth of the indentation.
There is none if a whole number in the value has too many digits, and only then. -/
theorem render_toCode (v : Value) (h : Rawless v) :
    (v.toCode []).map Code.render = v.layout 0 ∧
      (∀ depth : Nat,
        (v.toCode []).map (fun code : Code => (Code.indent code depth).render) = v.layout depth) ∧
        ∀ c, v.toCode [] = .error c ↔ c = .integerUnwritable ∧ v.HoldsOverlong := by
  refine ⟨?_, fun depth => ?_, h.toCode_eq_error []⟩
  · have hpadding : Code.padding (0 : Nat) = [] := rfl
    simpa only [hpadding, Code.padAfterBreaks_nil] using h.padAfterBreaks_toCode 0
  · rw [← h.padAfterBreaks_toCode depth]
    simp only [Code.render_indent]
    rfl

/-- Nested literals, empty ones among them, and a text with a line feed. -/
theorem render_toCode_nested :
    let v : Value := .object [(.text "a", .array [.text "x\n  y", .object [], .array []]),
      (.text "b", .object [(.text "c", .null)])]
    Rawless v ∧ (v.toCode []).map Code.render =
      .ok ("\x7b\n  \"a\": [\n    \"x\\n  y\",\n    \x7b\x7d,\n    []\n  ],\n" ++
        "  \"b\": \x7b\n    \"c\": null\n  \x7d\n\x7d") := by
  intro v
  have hrawless : Rawless v := by
    refine .object ?_ ?_
    · simp only [List.forall_mem_cons]
      exact ⟨⟨_, rfl⟩, ⟨_, rfl⟩, List.forall_mem_nil _⟩
    · simp only [List.forall_mem_cons]
      refine ⟨.array ?_, .object ?_ ?_, List.forall_mem_nil _⟩
      · simp only [List.forall_mem_cons]
        exact ⟨.text _, .object (List.forall_mem_nil _) (List.forall_mem_nil _),
          .array (List.forall_mem_nil _), List.forall_mem_nil _⟩
      · exact List.forall_mem_singleton.mpr ⟨_, rfl⟩
      · exact List.forall_mem_singleton.mpr .null
  refine ⟨hrawless, (render_toCode v hrawless).1.trans ?_⟩
  rfl

end Value

end Phrasebook
