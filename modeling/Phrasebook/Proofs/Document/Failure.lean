import Phrasebook.Compile.Generation
import Phrasebook.Document.Load
import Phrasebook.Proofs.Document.Comments
import Phrasebook.Proofs.Json.Overlong
import Phrasebook.Proofs.Schema.Consistency

/-! # How texts of documents fail

The text of a document decodes to a tree, or a problem is reported that names the source, the line
and the column; only a whole number that is too long, where the decoder comes to it, is something
that no stage is prepared for. Neither a merge nor the layout of modules adds another one
(`reported_generate`), so modules are generated from texts, or a problem is reported, unless the
first text that does not decode comes to such a number (`crashes_iff_overlong`). -/

namespace Phrasebook

namespace Document

/-- **The text of a document** before it is decoded. -/
structure Manuscript where
  locale : Text
  text : Text
  source : Text := "<memory>"

/-- The document that a text is decoded to. -/
def Manuscript.document (w : Manuscript) : Except Fault Document :=
  (decode w.text w.source).map fun tree => { locale := w.locale, tree, source := w.source }

/-- **The documents of some texts**, or the first failure. -/
def ofManuscripts (texts : List Manuscript) : Except Fault (List Document) :=
  collect (texts.map Manuscript.document)

section Decode
variable {text source : Text}

/-- **What no stage is prepared for is a number that is too long.** -/
theorem decode_eq_crash {c : Crash} : decode (α := Foreign) text source = .error (.crash c) ↔
    ∃ digits, c = .integerTooLong digits ∧ Json.Overlong (Comments.blank text) digits := by
  simp only [← Json.decode_eq_integerTooLong, decode]
  cases Json.decode (α := Foreign) (Comments.blank text) with
  | ok tree => simp
  | error fault =>
    cases fault with
    | malformed reason offset => simp
    | integerTooLong digits => simp [eq_comm]

/-- **A text decodes, or it is not well formed**, or it comes to a number that is too long. -/
theorem decode_cases (text source : Text) :
    (∃ tree : Datum Foreign, decode text source = .ok tree) ∨
      (∃ reason line column, decode (α := Foreign) text source =
        .error (.problem (.documentInvalid source reason line column))) ∨
      ∃ digits, decode (α := Foreign) text source = .error (.crash (.integerTooLong digits)) := by
  simp only [decode]
  cases Json.decode (α := Foreign) (Comments.blank text) with
  | ok tree => exact .inl ⟨tree, rfl⟩
  | error fault =>
    cases fault with
    | malformed reason offset => exact .inr (.inl ⟨_, _, _, rfl⟩)
    | integerTooLong digits => exact .inr (.inr ⟨digits, rfl⟩)

theorem decode_digits (hdigits : ∀ c ∈ text, c.isDigit = true)
    (hzero : text.head? ≠ some (CodePoint.ofChar '0')) (hlong : Crash.digitLimit < text.length) :
    decode (α := Foreign) text source = .error (.crash (.integerTooLong text.length)) := by
  have hplain : Comments.Uncommented text := by
    refine Comments.uncommented_of_forall fun c hc => ⟨?_, ?_⟩
    · rintro rfl
      exact absurd (hdigits _ hc) (by decide)
    · rintro rfl
      exact absurd (hdigits _ hc) (by decide)
  refine decode_eq_crash.mpr ⟨text.length, rfl, ?_⟩
  rw [hplain.blank_eq]
  exact Json.overlong_digits hdigits hzero hlong

end Decode

/-! ### Lists of texts -/

theorem Manuscript.document_eq_crash {w : Manuscript} {c : Crash} :
    w.document = .error (.crash c) ↔ decode (α := Foreign) w.text w.source = .error (.crash c) := by
  unfold document
  cases decode (α := Foreign) w.text w.source <;> simp [Except.map]

theorem Manuscript.exists_document_iff {w : Manuscript} : (∃ d, w.document = .ok d) ↔
    ∃ tree : Datum Foreign, decode w.text w.source = .ok tree := by
  unfold document
  cases decode (α := Foreign) w.text w.source <;> simp [Except.map]

theorem collect_eq_error {attempts : List (Except Fault Document)} {fault : Fault} :
    collect attempts = .error fault ↔ ∃ before after, attempts = before ++ .error fault :: after ∧
      ∀ attempt ∈ before, ∃ d, attempt = .ok d := by
  induction attempts with
  | nil =>
    refine ⟨nofun, ?_⟩
    rintro ⟨before, after, h, -⟩
    cases before <;> cases h
  | cons attempt rest ih =>
    cases attempt with
    | error other =>
      constructor
      · intro h
        cases h
        exact ⟨[], rest, rfl, List.forall_mem_nil _⟩
      · rintro ⟨before, after, h, hbefore⟩
        cases before with
        | nil =>
          cases h
          rfl
        | cons first before =>
          cases h
          obtain ⟨d, hd⟩ := hbefore _ List.mem_cons_self
          cases hd
    | ok d =>
      have hstep : collect (.ok d :: rest) = .error fault ↔ collect rest = .error fault := by
        rw [collect]
        cases collect rest <;> simp [Except.map]
      refine hstep.trans (ih.trans ⟨?_, ?_⟩)
      · rintro ⟨before, after, rfl, hbefore⟩
        exact ⟨.ok d :: before, after, rfl, List.forall_mem_cons.mpr ⟨⟨d, rfl⟩, hbefore⟩⟩
      · rintro ⟨before, after, h, hbefore⟩
        cases before with
        | nil => cases h
        | cons first before =>
          cases h
          exact ⟨before, after, rfl, (List.forall_mem_cons.mp hbefore).2⟩

/-- **The first text that does not decode comes to a number that is too long.** -/
def ComesToOverlong (texts : List Manuscript) (digits : Nat) : Prop :=
  ∃ before w after, texts = before ++ w :: after ∧
    (∀ v ∈ before, ∃ tree : Datum Foreign, decode v.text v.source = .ok tree) ∧
    Json.Overlong (Comments.blank w.text) digits

theorem ofManuscripts_eq_crash {texts : List Manuscript} {c : Crash} :
    ofManuscripts texts = .error (.crash c) ↔
      ∃ digits, c = .integerTooLong digits ∧ ComesToOverlong texts digits := by
  unfold ofManuscripts
  rw [collect_eq_error]
  constructor
  · rintro ⟨before, after, h, hbefore⟩
    obtain ⟨earlier, others, rfl, rfl, hothers⟩ := List.map_eq_append_iff.mp h
    obtain ⟨w, later, rfl, hw, -⟩ := List.map_eq_cons_iff.mp hothers
    obtain ⟨digits, hc, hlong⟩ := decode_eq_crash.mp (Manuscript.document_eq_crash.mp hw)
    refine ⟨digits, hc, earlier, w, later, rfl, fun v hv => ?_, hlong⟩
    exact Manuscript.exists_document_iff.mp (hbefore _ (List.mem_map_of_mem hv))
  · rintro ⟨digits, hc, earlier, w, later, rfl, hearlier, hlong⟩
    have hw := Manuscript.document_eq_crash.mpr (decode_eq_crash.mpr ⟨digits, hc, hlong⟩)
    refine ⟨earlier.map Manuscript.document, later.map Manuscript.document, ?_, ?_⟩
    · rw [List.map_append, List.map_cons, hw]
    · intro attempt hattempt
      obtain ⟨v, hv, rfl⟩ := List.mem_map.mp hattempt
      exact Manuscript.exists_document_iff.mpr (hearlier v hv)

end Document

/-- **A stage ends well, or a problem is reported.** -/
def Reported {α : Type} (x : Except Fault α) : Prop := ∀ c, x ≠ .error (.crash c)

theorem Reported.bind {α β : Type} {x : Except Fault α} (h : Reported x) {f : α → Except Fault β}
    (hf : ∀ a, Reported (f a)) : Reported (x.bind f) := by
  cases x with
  | error fault => exact fun c heq => h c (Except.error.inj heq ▸ rfl)
  | ok a => exact hf a

namespace Compile

/-! ### Modules -/

/-- **The modules of some texts.** -/
def ofManuscripts (selfNames : Locale.SelfNames) (texts : List Document.Manuscript)
    (defaultLocale : Text) (moduleAlias : Given Text) (names? : Option (OrderedMap Text Text))
    (source : Text) : Except Fault Modules :=
  (Document.ofManuscripts texts).bind fun documents =>
    (generate selfNames Template.compiler documents defaultLocale moduleAlias names? source).outcome

theorem reported_merge (documents : List Document) :
    Reported (Catalogue.merge Template.compiler documents).outcome := by
  intro c h
  have hagree := Catalogue.agree_merge Template.compiler documents
  have hcrash : Ledger.CrashesAs Template.compiler
      (Ledger.acceptDocuments Template.compiler 100 [] documents) :=
    Ledger.crashesAs_acceptDocuments documents []
  rw [h] at hagree
  generalize Ledger.acceptDocuments Template.compiler 100 [] documents = accepted at hagree hcrash
  cases hagree with
  | error =>
    obtain ⟨t, ht⟩ := hcrash c rfl
    exact compiler_ne_crash t c ht

/-- **Documents have modules, or a problem is reported.** -/
theorem reported_generate (selfNames : Locale.SelfNames) (documents : List Document)
    (defaultLocale : Text) (moduleAlias : Given Text) (names? : Option (OrderedMap Text Text))
    (source : Text) :
    Reported (generate selfNames Template.compiler documents defaultLocale moduleAlias names?
      source).outcome := by
  unfold generate
  simp only [Report.outcome_bind]
  have hcheck : Reported (Report.ofExcept ((checkDocuments documents defaultLocale source).mapError
      Fault.problem)).outcome := by
    show Reported ((checkDocuments documents defaultLocale source).mapError Fault.problem)
    cases checkDocuments documents defaultLocale source <;> nofun
  refine hcheck.bind fun _ => (reported_merge documents).bind fun schema => ?_
  -- Once the documents are merged, nothing can fail.
  cases names? with
  | some names => nofun
  | none => nofun

/-- **A text decodes or a problem names its source, and modules are generated from texts or a
problem is reported**, unless the first text that does not decode comes to a whole number that is too
long. -/
theorem crashes_iff_overlong (selfNames : Locale.SelfNames) (texts : List Document.Manuscript)
    (defaultLocale : Text) (moduleAlias : Given Text) (names? : Option (OrderedMap Text Text))
    (source : Text) :
    (∀ text place : Text, (∃ tree : Datum Foreign, Document.decode text place = .ok tree) ∨
      (∃ reason line column, Document.decode (α := Foreign) text place =
        .error (.problem (.documentInvalid place reason line column))) ∨
      ∃ digits, Document.decode (α := Foreign) text place =
        .error (.crash (.integerTooLong digits)) ∧ Json.Overlong (Comments.blank text) digits) ∧
    ∀ c, ofManuscripts selfNames texts defaultLocale moduleAlias names? source =
        .error (.crash c) ↔
      ∃ digits, c = .integerTooLong digits ∧ Document.ComesToOverlong texts digits := by
  refine ⟨fun text place => ?_, fun c => ?_⟩
  · rcases Document.decode_cases text place with hok | hproblem | ⟨digits, hcrash⟩
    · exact .inl hok
    · exact .inr (.inl hproblem)
    · obtain ⟨_, hdigits, hlong⟩ := Document.decode_eq_crash.mp hcrash
      cases hdigits
      exact .inr (.inr ⟨digits, hcrash, hlong⟩)
  · rw [← Document.ofManuscripts_eq_crash]
    unfold ofManuscripts
    cases Document.ofManuscripts texts with
    | error fault =>
      show Except.error fault = _ ↔ _
      simp only [Except.error.injEq]
    | ok documents =>
      exact ⟨fun h => absurd h (reported_generate _ documents _ _ _ _ c), nofun⟩

/-- The failure of a document that is nothing but 4301 digits is not reported. -/
theorem unreported_digits :
    (∀ source, Document.decode (α := Foreign)
      (List.replicate 4301 (CodePoint.ofChar '1')) source =
        .error (.crash (.integerTooLong 4301))) ∧
    ofManuscripts (.ofTable [("en", "English")])
      [{ locale := "en", text := List.replicate 4301 (CodePoint.ofChar '1') }]
      "en" (.value Modules.usualAlias) none usualSource = .error (.crash (.integerTooLong 4301)) := by
  have hdecode : ∀ source, Document.decode (α := Foreign)
      (List.replicate 4301 (CodePoint.ofChar '1')) source =
        .error (.crash (.integerTooLong 4301)) := by
    intro source
    have hlong : Crash.digitLimit < (List.replicate 4301 (CodePoint.ofChar '1')).length := by
      rw [List.length_replicate]
      decide
    have hdigits : ∀ c ∈ List.replicate 4301 (CodePoint.ofChar '1'), c.isDigit = true := by
      intro c hc
      rw [List.eq_of_mem_replicate hc]
      decide
    have hzero : (List.replicate 4301 (CodePoint.ofChar '1')).head? ≠
        some (CodePoint.ofChar '0') := by
      rw [List.head?_replicate]
      decide
    rw [Document.decode_digits hdigits hzero hlong, List.length_replicate]
  refine ⟨hdecode, ?_⟩
  unfold ofManuscripts Document.ofManuscripts
  rw [List.map_singleton]
  unfold Document.Manuscript.document
  rw [hdecode]
  rfl

end Compile

end Phrasebook
