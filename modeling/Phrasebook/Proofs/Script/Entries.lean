import Phrasebook.Proofs.Script.Balanced
import Phrasebook.Proofs.Script.Layout

/-! # The entries of object literals

An object literal with one entry per line is taken apart into the texts of its entries, each into a
name and the text of a value (`Script.members?`). An entry ends at the first comma or line feed
outside of all brackets and literals, so it does not matter what the values are as long as none of
them ends earlier (`Lexer.Solid`). -/

namespace Phrasebook

namespace Lexer

/-! ### Where an entry ends -/

/-- Whether a code point outside of all brackets and literals ends an entry. -/
def endsItem (c : CodePoint) : Bool := c = CodePoint.ofChar ',' || c = CodePoint.lf

/-- **What stands before the end of an entry**, and what is left, with the lexer in a state at the
beginning. -/
def item (s : State) : Text → Text × Text
  | [] => ([], [])
  | c :: rest =>
    if s = {} ∧ endsItem c = true then ([], c :: rest)
    else
      match s.step c with
      | none => ([], c :: rest)
      | some next =>
        let (taken, left) := item next rest
        (c :: taken, left)

/-- The lexer takes a text from one state to another, and no entry ends in it. -/
def Passes (s : State) (t : Text) (s' : State) : Prop :=
  ∀ rest, item s (t ++ rest) = (t ++ (item s' rest).1, (item s' rest).2)

/-- **A text is within one entry.** -/
def Solid (t : Text) : Prop := Passes {} t {}

theorem item_of_endsItem {c : CodePoint} (h : endsItem c = true) (rest : Text) :
    item {} (c :: rest) = ([], c :: rest) :=
  if_pos ⟨rfl, h⟩

theorem Solid.item_append {t : Text} (h : Solid t) {c : CodePoint} (hc : endsItem c = true)
    (rest : Text) : item {} (t ++ c :: rest) = (t, c :: rest) := by
  rw [h, item_of_endsItem hc, List.append_nil]

theorem passes_nil (s : State) : Passes s [] s := fun _ => rfl

theorem Passes.append {s₁ s₂ s₃ : State} {t u : Text} (h : Passes s₁ t s₂) (h' : Passes s₂ u s₃) :
    Passes s₁ (t ++ u) s₃ := by
  intro rest
  rw [List.append_assoc, h, h', List.append_assoc]

theorem passes_singleton {s s' : State} {c : CodePoint} (h : s.step c = some s')
    (hc : s ≠ {} ∨ endsItem c = false) : Passes s [c] s' := by
  intro rest
  have hgoes : ¬ (s = {} ∧ endsItem c = true) := by
    rintro ⟨hs, hends⟩
    rcases hc with hc | hc
    · exact hc hs
    · rw [hends] at hc
      cases hc
  rw [List.singleton_append, item, if_neg hgoes, h]
  rfl

theorem Passes.cons {s₁ s₂ s₃ : State} {c : CodePoint} {t : Text} (h : Passes s₁ [c] s₂)
    (h' : Passes s₂ t s₃) : Passes s₁ (c :: t) s₃ := h.append h'

/-- The state after a text in which no entry ends. -/
def pass? (s : State) : Text → Option State
  | [] => some s
  | c :: rest => if s = {} ∧ endsItem c = true then none else (s.step c).bind fun s => pass? s rest

theorem passes_of_pass? {s s' : State} {t : Text} (h : pass? s t = some s') : Passes s t s' := by
  induction t generalizing s with
  | nil =>
    cases h
    exact passes_nil _
  | cons c t ih =>
    rw [pass?] at h
    split_ifs at h with hends
    obtain ⟨next, hstep, hpass⟩ := Option.bind_eq_some_iff.mp h
    have hgoes : s ≠ {} ∨ endsItem c = false := by
      rw [← Bool.not_eq_true, ← not_and_or]
      exact hends
    exact (passes_singleton hstep hgoes).cons (ih hpass)

/-! ### Brackets -/

/-- Inside a bracket no entry ends. -/
theorem passes_below {s s' : State} {t : Text} (h : State.run s t = some s')
    {below : List Bracket} (hbelow : below ≠ []) :
    Passes ⟨s.stack ++ below, s.mode⟩ t ⟨s'.stack ++ below, s'.mode⟩ := by
  induction t generalizing s with
  | nil =>
    cases h
    exact passes_nil _
  | cons c t ih =>
    rw [State.run] at h
    obtain ⟨next, hstep, hrun⟩ := Option.bind_eq_some_iff.mp h
    have hinside : (⟨s.stack ++ below, s.mode⟩ : State) ≠ {} := by
      intro heq
      have hstack : s.stack ++ below = [] := congrArg State.stack heq
      exact hbelow (List.append_eq_nil_iff.mp hstack).2
    exact (passes_singleton (State.step_below hstep below) (Or.inl hinside)).cons (ih hrun)

/-- **Two texts wrap what is between them**: the first leaves brackets open and the second closes
them, and no entry ends in either. -/
structure Wraps (before after : Text) : Prop where
  brackets : ∃ stack, stack ≠ [] ∧ pass? {} before = some ⟨stack, .code⟩ ∧
    pass? ⟨stack, .code⟩ after = some {}
  before : Unbroken before
  after : Unbroken after

theorem Wraps.solid {before after : Text} (h : Wraps before after) {t : Text} (ht : Balanced t) :
    Solid (before ++ t ++ after) := by
  obtain ⟨stack, hstack, hbefore, hafter⟩ := h.brackets
  have hinner : Passes ⟨stack, .code⟩ t ⟨stack, .code⟩ := passes_below ht hstack
  exact ((passes_of_pass? hbefore).append hinner).append (passes_of_pass? hafter)

theorem Wraps.padAfterBreaks {before after : Text} (h : Wraps before after) (pad t : Text) :
    Code.padAfterBreaks pad (before ++ t ++ after) =
      before ++ Code.padAfterBreaks pad t ++ after := by
  rw [Code.padAfterBreaks_append, h.before.padAfterBreaks_append, h.after.padAfterBreaks]

theorem Balanced.padAfterBreaks {t : Text} (h : Balanced t) {pad : Text} (hpad : Spaces pad) :
    Balanced (Code.padAfterBreaks pad t) := by
  unfold Balanced
  rw [State.run_padAfterBreaks hpad]
  exact h

/-- **An object literal** is within one entry at any indentation. -/
theorem solid_object {properties : List (Code.PropertyName × Fragment)}
    (h : ∀ p ∈ properties, BalancedProperty p) {pad : Text} (hpad : Spaces pad) :
    Solid (Code.padAfterBreaks pad (Code.object properties).render) := by
  have hbraces : Wraps [CodePoint.openBrace] [CodePoint.closeBrace] :=
    ⟨⟨[.curly], by decide, rfl, rfl⟩, by decide, by decide⟩
  cases properties with
  | nil => exact hbraces.solid balanced_nil
  | cons p rest =>
    have hfirst : Balanced Code.firstBreak := by decide
    have hseparator : Balanced Code.entryBreak := by decide
    have hlast : Balanced [CodePoint.lf] := by decide
    have hproperties : Balanced (Text.join Code.entryBreak
        ((p :: rest).map fun p => (Code.property [] p.1 p.2).render)) := by
      refine balanced_join hseparator fun t ht => ?_
      obtain ⟨q, hq, rfl⟩ := List.mem_map.mp ht
      exact balanced_property (h q hq)
    have hinner := (hfirst.append hproperties).append hlast
    have htext : (Code.object (p :: rest)).render = [CodePoint.openBrace] ++ (Code.firstBreak ++
        Text.join Code.entryBreak ((p :: rest).map fun p => (Code.property [] p.1 p.2).render) ++
          [CodePoint.lf]) ++ [CodePoint.closeBrace] := by
      rw [Script.render_object]
      simp only [List.append_assoc, List.cons_append, List.nil_append]
    rw [htext, hbraces.padAfterBreaks]
    exact hbraces.solid (hinner.padAfterBreaks hpad)

/-! ### String literals -/

theorem passes_spelling {c : CodePoint} {t : Text} (h : Text.Spelling Text.stringSpecial c t) :
    Passes ⟨[], .string⟩ t ⟨[], .string⟩ := by
  have hstring : (⟨[], .string⟩ : State) ≠ {} := by decide
  have hescape : (⟨[], .stringEscape⟩ : State) ≠ {} := by decide
  have hbackslash : Passes ⟨[], .string⟩ [CodePoint.backslash] ⟨[], .stringEscape⟩ :=
    passes_singleton (State.inLiteral_string.backslash []) (Or.inl hstring)
  cases h with
  | @letter d hd =>
    have hlf : d ≠ CodePoint.lf := by
      rintro rfl
      cases hd
    have hcr : d ≠ CodePoint.cr := by
      rintro rfl
      cases hd
    exact hbackslash.cons (passes_singleton (State.inLiteral_string.escaped [] d hlf hcr)
      (Or.inl hescape))
  | number _ =>
    have hdigit : ∀ n, Passes ⟨[], .string⟩ [CodePoint.ofChar (Nat.digitChar (n % 16))]
        ⟨[], .string⟩ := fun n => passes_singleton (State.inLiteral_string.plain []
          _ (State.inLiteral_string.digit _ (Nat.mod_lt n (by decide)))) (Or.inl hstring)
    have hu : Passes ⟨[], .stringEscape⟩ [CodePoint.ofChar 'u'] ⟨[], .string⟩ :=
      passes_singleton (State.inLiteral_string.escaped [] _ (by decide) (by decide)) (Or.inl hescape)
    rw [Text.escape_eq]
    exact hbackslash.cons (hu.cons ((hdigit _).cons ((hdigit _).cons ((hdigit _).cons (hdigit _)))))
  | itself hc =>
    exact passes_singleton (State.inLiteral_string.plain [] c hc) (Or.inl hstring)

/-- **A string literal** is within one entry. -/
theorem solid_quoted (t : Text) : Solid t.quoted := by
  have hopen : Passes {} [CodePoint.doubleQuote] ⟨[], .string⟩ :=
    passes_singleton rfl (Or.inr (by decide))
  have hclose : Passes ⟨[], .string⟩ [CodePoint.doubleQuote] {} :=
    passes_singleton rfl (Or.inl (by decide))
  have hletters : Passes ⟨[], .string⟩
      (t.flatMap fun c => Text.spellSurrogates (Text.quotedPoint c)) ⟨[], .string⟩ := by
    induction t with
    | nil => exact passes_nil _
    | cons c t ih =>
      exact (passes_spelling (Text.spelling_quotedPoint c).spellSurrogates).append ih
  rw [Text.quoted_eq]
  exact (hopen.append hletters).append hclose

end Lexer

namespace Script

/-! ### The entries of a literal -/

/-- The texts of the entries up to the closing brace, with which the text ends. What follows a comma
is shorter than what begins before it, which the reader checks. -/
def entriesFrom? (t : Text) : Option (List Text) :=
  let (entry, left) := Lexer.item {} t
  match Text.dropBeginning? "," left with
  | none => if skipBlanks left = [CodePoint.closeBrace] then some [entry] else none
  | some rest =>
    if _h : (skipBlanks rest).length < t.length then
      (entriesFrom? (skipBlanks rest)).map (entry :: ·)
    else none
termination_by t.length

/-- **The texts of the entries of an object literal**, which is the whole text. -/
def entries? (t : Text) : Option (List Text) :=
  (Text.dropBeginning? [CodePoint.openBrace] t).bind fun inner =>
    if inner = [CodePoint.closeBrace] then some [] else entriesFrom? (skipBlanks inner)

/-- A text that is the whole text of an entry. -/
structure IsEntry (t : Text) : Prop where
  solid : Lexer.Solid t
  first : ∃ c rest, t = c :: rest ∧ isBlank c = false

theorem IsEntry.skipBlanks_append {t : Text} (h : IsEntry t) {blanks : Text}
    (hblanks : ∀ c ∈ blanks, isBlank c = true) (rest : Text) :
    skipBlanks (blanks ++ (t ++ rest)) = t ++ rest := by
  obtain ⟨c, others, rfl, hc⟩ := h.first
  exact Script.skipBlanks_append hblanks hc _

theorem isBlank_of_mem_entryGap {pad : Text} (h : Spaces pad) :
    ∀ c ∈ Code.entryGap pad, isBlank c = true :=
  isBlank_of_mem_lf_cons h.append_indentUnit

theorem dropBeginning?_comma (t : Text) :
    Text.dropBeginning? "," (CodePoint.ofChar ',' :: t) = some t :=
  Text.dropBeginning?_append "," t

/-- An object literal as it stands in indented script. -/
theorem padAfterBreaks_object (pad : Text) {properties : List (Code.PropertyName × Fragment)}
    (h : properties ≠ []) : Code.padAfterBreaks pad (Code.object properties).render =
      CodePoint.openBrace :: (Code.entryGap pad ++ (Code.entriesText (Code.entryGap pad)
        (properties.map fun p => Code.padAfterBreaks pad (Code.property [] p.1 p.2).render) ++
          (Code.lastGap pad ++ [CodePoint.closeBrace]))) := by
  obtain ⟨p, rest, rfl⟩ := List.exists_cons_of_ne_nil h
  rw [render_object, Code.padAfterBreaks_entries (by decide) (by decide), List.map_map]
  rfl

section Entries
variable {pad : Text} (hpad : Spaces pad)
include hpad

/-- The blanks before an entry. -/
theorem skipBlanks_entries {t : Text} (h : IsEntry t) {texts : List Text} (rest : Text) :
    skipBlanks (Code.entryGap pad ++ (Code.entriesText (Code.entryGap pad) (t :: texts) ++ rest)) =
      Code.entriesText (Code.entryGap pad) (t :: texts) ++ rest := by
  obtain ⟨others, hothers⟩ := Code.prefix_entriesText (Code.entryGap pad) t texts
  rw [← hothers, List.append_assoc]
  exact h.skipBlanks_append (isBlank_of_mem_entryGap hpad) _

/-- What follows the last entry. -/
theorem entriesFrom?_last {t : Text} (h : IsEntry t) :
    entriesFrom? (t ++ (Code.lastGap pad ++ [CodePoint.closeBrace])) = some [t] := by
  have hitem := h.solid.item_append (c := CodePoint.lf) (by decide) (pad ++ [CodePoint.closeBrace])
  have hcomma : Text.dropBeginning? ","
      (CodePoint.lf :: (pad ++ [CodePoint.closeBrace])) = none :=
    Text.dropBeginning?_cons_of_ne (by decide) [] _
  have hblanks : skipBlanks (CodePoint.lf :: (pad ++ [CodePoint.closeBrace])) =
      [CodePoint.closeBrace] :=
    skipBlanks_append (isBlank_of_mem_lf_cons hpad) (by decide) []
  have htext : Code.lastGap pad ++ [CodePoint.closeBrace] =
      CodePoint.lf :: (pad ++ [CodePoint.closeBrace]) := rfl
  rw [entriesFrom?, htext, hitem]
  simp only [hcomma, hblanks, if_true]

/-- **The entries between the braces** are told apart. -/
theorem entriesFrom?_entriesText {texts : List Text} (h : ∀ t ∈ texts, IsEntry t)
    (hne : texts ≠ []) : entriesFrom? (Code.entriesText (Code.entryGap pad) texts ++
      (Code.lastGap pad ++ [CodePoint.closeBrace])) = some texts := by
  induction texts with
  | nil => exact absurd rfl hne
  | cons t texts ih =>
    obtain ⟨ht, htexts⟩ := List.forall_mem_cons.mp h
    cases texts with
    | nil =>
      rw [Code.entriesText_singleton]
      exact entriesFrom?_last hpad ht
    | cons u texts =>
      let next := Code.entriesText (Code.entryGap pad) (u :: texts) ++
        (Code.lastGap pad ++ [CodePoint.closeBrace])
      have hnext : entriesFrom? next = some (u :: texts) := ih htexts (List.cons_ne_nil u texts)
      have htext : Code.entriesText (Code.entryGap pad) (t :: u :: texts) ++
          (Code.lastGap pad ++ [CodePoint.closeBrace]) =
            t ++ CodePoint.ofChar ',' :: (Code.entryGap pad ++ next) := by
        rw [Code.entriesText_cons_cons]
        simp only [List.append_assoc, List.cons_append, next]
      have hitem := ht.solid.item_append (c := CodePoint.ofChar ',') (by decide)
        (Code.entryGap pad ++ next)
      have hblanks : skipBlanks (Code.entryGap pad ++ next) = next :=
        skipBlanks_entries hpad (List.forall_mem_cons.mp htexts).1 _
      have hlength : next.length <
          (t ++ CodePoint.ofChar ',' :: (Code.entryGap pad ++ next)).length := by
        simp only [List.length_append, List.length_cons]
        omega
      rw [htext, entriesFrom?, hitem]
      simp only [dropBeginning?_comma, hblanks, dif_pos hlength, hnext, Option.map_some]

/-- **The entries of an object literal** are the texts of its properties. -/
theorem entries?_object {properties : List (Code.PropertyName × Fragment)}
    (h : ∀ p ∈ properties, IsEntry (Code.padAfterBreaks pad (Code.property [] p.1 p.2).render)) :
    entries? (Code.padAfterBreaks pad (Code.object properties).render) =
      some (properties.map fun p => Code.padAfterBreaks pad (Code.property [] p.1 p.2).render) := by
  have hopen : ∀ t : Text, Text.dropBeginning? [CodePoint.openBrace] (CodePoint.openBrace :: t) =
      some t := fun t => Text.dropBeginning?_append [CodePoint.openBrace] t
  cases properties with
  | nil =>
    have hempty : Code.padAfterBreaks pad (Code.object []).render =
        [CodePoint.openBrace, CodePoint.closeBrace] := rfl
    rw [hempty, entries?, hopen, Option.bind_some, if_pos rfl]
    rfl
  | cons p properties =>
    let texts := (p :: properties).map fun p =>
      Code.padAfterBreaks pad (Code.property [] p.1 p.2).render
    have htexts : ∀ t ∈ texts, IsEntry t := by
      intro t ht
      obtain ⟨q, hq, rfl⟩ := List.mem_map.mp ht
      exact h q hq
    have hentries := entriesFrom?_entriesText hpad htexts (List.cons_ne_nil _ _)
    have htext := padAfterBreaks_object pad (List.cons_ne_nil p properties)
    have hblanks : skipBlanks (Code.entryGap pad ++ (Code.entriesText (Code.entryGap pad) texts ++
        (Code.lastGap pad ++ [CodePoint.closeBrace]))) = Code.entriesText (Code.entryGap pad) texts ++
          (Code.lastGap pad ++ [CodePoint.closeBrace]) :=
      skipBlanks_entries hpad (h p List.mem_cons_self) _
    have hmore : Code.entryGap pad ++ (Code.entriesText (Code.entryGap pad) texts ++
        (Code.lastGap pad ++ [CodePoint.closeBrace])) ≠ [CodePoint.closeBrace] := by
      intro heq
      exact absurd (List.cons.inj heq).1 (by decide)
    rw [htext, entries?, hopen, Option.bind_some, if_neg hmore, hblanks, hentries]

end Entries

/-! ### Names and values -/

/-- The name and the value of a property, whose name stands in quotation marks after a lead. -/
def member? (lead t : Text) : Option (Text × Text) :=
  (Text.dropBeginning? lead t).bind fun t =>
    (string? t).bind fun (name, t) => (Text.dropBeginning? ": " t).map fun value => (name, value)

/-- **The names and the values of the properties of an object literal**, with a lead before each
name. -/
def members? (lead t : Text) : Option (List (Text × Text)) :=
  (entries? t).bind fun entries => entries.mapM (member? lead)

/-- What may stand before the names of properties. -/
structure IsLead (lead : Text) : Prop where
  solid : Lexer.Solid lead
  unbroken : Unbroken lead
  first : ∀ c rest, lead = c :: rest → isBlank c = false

/-- **A property of indented script has a name and a value.** -/
structure IsMember (lead pad : Text) (p : Code.PropertyName × Fragment) (x : Text × Text) :
    Prop where
  name : (Code.propertyName [] p.1).render = lead ++ x.1.quoted
  value : x.2 = Code.padAfterBreaks (pad ++ Code.indentUnit) p.2.render
  solid : Lexer.Solid x.2

theorem exists_of_forall₂ {α β : Type} {R : α → β → Prop} {as : List α} {bs : List β}
    (h : List.Forall₂ R as bs) {a : α} (ha : a ∈ as) : ∃ b ∈ bs, R a b := by
  induction h with
  | nil => cases ha
  | @cons first b as bs hfirst _ ih =>
    rcases List.mem_cons.mp ha with rfl | ha
    · exact ⟨b, List.mem_cons_self, hfirst⟩
    · obtain ⟨c, hc, hrest⟩ := ih ha
      exact ⟨c, List.mem_cons_of_mem b hc, hrest⟩

section Members
variable {lead pad : Text} (hlead : IsLead lead)
include hlead

theorem IsMember.text {p : Code.PropertyName × Fragment} {x : Text × Text}
    (h : IsMember lead pad p x) : Code.padAfterBreaks pad (Code.property [] p.1 p.2).render =
      lead ++ (x.1.quoted ++ CodePoint.ofChar ':' :: CodePoint.space :: x.2) := by
  have hname : Unbroken (lead ++ x.1.quoted) := hlead.unbroken.append (unbroken_quoted x.1)
  rw [Code.padAfterBreaks_property hname pad h.name, h.value, List.append_assoc]

theorem IsMember.isEntry {p : Code.PropertyName × Fragment} {x : Text × Text}
    (h : IsMember lead pad p x) :
    IsEntry (Code.padAfterBreaks pad (Code.property [] p.1 p.2).render) := by
  have hcolon : Lexer.Solid [CodePoint.ofChar ':', CodePoint.space] :=
    Lexer.passes_of_pass? rfl
  rw [h.text hlead]
  refine ⟨hlead.solid.append ((Lexer.solid_quoted x.1).append (hcolon.append h.solid)), ?_⟩
  rw [Text.quoted_eq]
  cases hl : lead with
  | nil => exact ⟨CodePoint.doubleQuote, _, rfl, by decide⟩
  | cons c rest => exact ⟨c, _, rfl, hlead.first c rest hl⟩

theorem IsMember.member? {p : Code.PropertyName × Fragment} {x : Text × Text}
    (h : IsMember lead pad p x) :
    member? lead (Code.padAfterBreaks pad (Code.property [] p.1 p.2).render) = some x := by
  have hspace : CodePoint.ofChar ':' ≠ CodePoint.space := by decide
  unfold Script.member?
  rw [h.text hlead, Text.dropBeginning?_append, Option.bind_some, string?_quoted _ hspace,
    Option.bind_some]
  simp only [dropBeginning?_colon, Option.map_some]

/-- The value of a property is shorter than the object literal. -/
theorem length_lt_of_isMember {properties : List (Code.PropertyName × Fragment)}
    {members : List (Text × Text)} (h : List.Forall₂ (IsMember lead pad) properties members) :
    ∀ x ∈ members,
      x.2.length < (Code.padAfterBreaks pad (Code.object properties).render).length := by
  intro x hx
  obtain ⟨p, hp, hmember⟩ := exists_of_forall₂ h.flip hx
  have htext := congrArg List.length (hmember.text hlead)
  let text (p : Code.PropertyName × Fragment) : Text :=
    Code.padAfterBreaks pad (Code.property [] p.1 p.2).render
  have hin : text p <:+: Code.entriesText (Code.entryGap pad) (properties.map text) :=
    Code.infix_join (List.mem_map_of_mem hp) _
  have hlength := hin.length_le
  rw [padAfterBreaks_object pad (List.ne_nil_of_mem hp)]
  simp only [List.length_append, List.length_cons, text] at htext hlength ⊢
  omega

/-- **The properties of an object literal are read** at any indentation. -/
theorem members?_object (hpad : Spaces pad) {properties : List (Code.PropertyName × Fragment)}
    {members : List (Text × Text)} (h : List.Forall₂ (IsMember lead pad) properties members) :
    members? lead (Code.padAfterBreaks pad (Code.object properties).render) = some members := by
  have hentries : ∀ p ∈ properties,
      IsEntry (Code.padAfterBreaks pad (Code.property [] p.1 p.2).render) := by
    intro p hp
    obtain ⟨x, -, hx⟩ := exists_of_forall₂ h hp
    exact hx.isEntry hlead
  unfold members?
  rw [entries?_object hpad hentries, Option.bind_some]
  refine mapM_eq_some ?_
  rw [List.forall₂_map_left_iff]
  exact h.imp fun _ _ hp => hp.member? hlead

end Members

end Script

end Phrasebook
