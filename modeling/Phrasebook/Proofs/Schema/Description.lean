import Mathlib.Data.List.Permutation
import Phrasebook.Proofs.Schema.Refusal
import Phrasebook.Proofs.Template.Parameters
import Phrasebook.Proofs.Text.Pieces

/-! # Descriptions of signatures read back

The description of a signature is a list of its parameters in braces. If the parameters have
well-formed names, it is read back (`Signature.readDescription_describe`), so that different
signatures have different descriptions: a mismatch that a merge reports never shows the same
description twice (`Signature.description_identifies`). -/

namespace Phrasebook

/-- The parameter that a piece of a description shows. -/
def Parameter.ofDescription (t : Text) : Parameter :=
  match Text.between? "fn(" ")" t with
  | some name => ⟨name, true⟩
  | none => ⟨t, false⟩

namespace Signature

/-- **The parameters that a description shows**: between the braces, each up to a comma and, but for
the first, behind a space. -/
def readDescription (t : Text) : Option (List Parameter) :=
  (Text.between? [CodePoint.openBrace] [CodePoint.closeBrace] t).map fun inner =>
    if inner = [] then []
    else (Text.split (CodePoint.ofChar ',') (CodePoint.space :: inner)).map fun piece =>
      Parameter.ofDescription piece.tail

section Piece
variable {p : Parameter} (h : Template.isName p.name)
include h

theorem comma_not_mem_describeParameter : CodePoint.ofChar ',' ∉ describeParameter p := by
  have hname := Template.not_mem_of_isName h (c := CodePoint.ofChar ',') (by decide)
  unfold describeParameter
  split
  · simp only [List.mem_append, not_or]
    exact ⟨⟨by decide, hname⟩, by decide⟩
  · exact hname

theorem describeParameter_ne_nil : describeParameter p ≠ [] := by
  unfold describeParameter
  split
  · exact List.cons_ne_nil _ _
  · intro hnil
    rw [hnil] at h
    cases h

/-- **The description of a parameter is read back**, as no name has a parenthesis. -/
theorem ofDescription_describeParameter : Parameter.ofDescription (describeParameter p) = p := by
  obtain ⟨name, isFormatter⟩ := p
  unfold Parameter.ofDescription
  cases isFormatter with
  | true =>
    have hbetween : Text.between? "fn(" ")" (describeParameter ⟨name, true⟩) = some name :=
      Text.between?_append _ _ _
    rw [hbetween]
  | false =>
    have hnone : Text.dropBeginning? "fn(" name = none := by
      rw [Option.eq_none_iff_forall_ne_some]
      intro rest hrest
      have hmem : CodePoint.ofChar '(' ∈ name := by
        rw [Text.dropBeginning?_eq_some.mp hrest]
        exact List.mem_append_left _ (by decide)
      exact Template.not_mem_of_isName h (by decide) hmem
    have hbetween : Text.between? "fn(" ")" (describeParameter ⟨name, false⟩) = none := by
      show Text.between? "fn(" ")" name = none
      unfold Text.between?
      rw [hnone, Option.bind_none]
    rw [hbetween]
    rfl

end Piece

section Parameters
variable {ps : List Parameter} (h : ∀ p ∈ ps, Template.isName p.name)
include h

theorem join_describeParameter_ne_nil (hne : ps ≠ []) :
    Text.join ", " (ps.map describeParameter) ≠ [] := by
  intro hnil
  have hlength : (ps.map describeParameter).length ≤
      (Text.join ", " (ps.map describeParameter)).length :=
    Text.length_le_length_join
      (List.forall_mem_map.mpr fun p hp => describeParameter_ne_nil (h p hp)) ", "
  rw [hnil, List.length_map, List.length_nil, Nat.le_zero, List.length_eq_zero_iff] at hlength
  exact hne hlength

theorem split_join_describeParameter (hne : ps ≠ []) :
    Text.split (CodePoint.ofChar ',')
        (CodePoint.space :: Text.join ", " (ps.map describeParameter)) =
      ps.map fun p => CodePoint.space :: describeParameter p := by
  have hcommas : ∀ t ∈ ps.map (fun p => CodePoint.space :: describeParameter p),
      CodePoint.ofChar ',' ∉ t := by
    refine List.forall_mem_map.mpr fun p hp => ?_
    rw [List.mem_cons, not_or]
    exact ⟨by decide, comma_not_mem_describeParameter (h p hp)⟩
  have hjoin : CodePoint.space :: Text.join ", " (ps.map describeParameter) = Text.join
      [CodePoint.ofChar ','] (ps.map fun p => CodePoint.space :: describeParameter p) := by
    obtain ⟨p, rest, rfl⟩ := List.exists_cons_of_ne_nil hne
    rw [List.map_cons, Text.space_cons_join, ← List.map_cons, List.map_map]
    rfl
  rw [hjoin, Text.split_join (mt List.map_eq_nil_iff.mp hne) hcommas]

end Parameters

/-- **A description is read back** if the names of the parameters are well formed. -/
theorem readDescription_describe {s : Signature} (h : ∀ p ∈ s.parameters, Template.isName p.name) :
    readDescription s.describe = some s.parameters := by
  unfold readDescription describe
  rw [Text.between?_append, Option.map_some, Option.some_inj]
  by_cases hne : s.parameters = []
  · rw [hne]
    rfl
  · rw [if_neg (join_describeParameter_ne_nil h hne), split_join_describeParameter h hne,
      List.map_map]
    exact (List.map_congr_left fun p hp => ofDescription_describeParameter (h p hp)).trans
      (List.map_id _)

/-! ### What tells signatures apart -/

theorem eq_of_describe_eq {a b : Signature} (ha : ∀ p ∈ a.parameters, Template.isName p.name)
    (hb : ∀ p ∈ b.parameters, Template.isName p.name) (h : a.describe = b.describe) : a = b := by
  have hread : readDescription a.describe = readDescription b.describe :=
    congrArg readDescription h
  rw [readDescription_describe ha, readDescription_describe hb] at hread
  cases a
  cases b
  cases hread
  rfl

theorem mem_parameters_of {params formatters : List Text} {s : Signature}
    (h : Signature.of params formatters = .ok s) :
    (∀ name, name ∈ params ↔ name ∈ s.names) ∧
      ∀ name, name ∈ formatters ↔ ⟨name, true⟩ ∈ s.parameters := by
  unfold Signature.of at h
  split at h
  next hundeclared =>
    cases h
    have hdeclared : ∀ name ∈ formatters, name ∈ params := by
      intro name hname
      have hnone : name ∉ undeclared params formatters := by
        rw [hundeclared]
        exact List.not_mem_nil
      unfold undeclared at hnone
      simp only [List.mem_filter, Sorted.mem_ofList, hname, true_and, Bool.not_eq_true,
        Bool.not_eq_false', List.contains_iff_mem] at hnone
      exact hnone
    refine ⟨fun name => ?_, fun name => ?_⟩
    · simp only [names, List.mem_map, Template.mem_ofNames]
      constructor
      · intro hname
        exact ⟨⟨name, formatters.contains name⟩, ⟨hname, rfl⟩, rfl⟩
      · rintro ⟨p, ⟨hname, -⟩, rfl⟩
        exact hname
    · rw [Template.mem_ofNames]
      constructor
      · intro hname
        exact ⟨hdeclared name hname, (List.contains_iff_mem.mpr hname).symm⟩
      · rintro ⟨-, hname⟩
        exact List.contains_iff_mem.mp hname.symm
  next => cases h

theorem describe_ne_of_mismatch {documents : List Document} {key locale expected actual : Text}
    (h : (Catalogue.merge Template.compiler documents).outcome =
      .error (.problem (.signatureMismatch key locale expected actual))) : expected ≠ actual := by
  have hnames : ∀ {t : Text} {s : Signature}, Ledger.Compiles Template.compiler t s →
      ∀ p ∈ s.parameters, Template.isName p.name := by
    rintro t s ⟨compiled, hcompiled, rfl⟩
    exact Template.isName_of_mem_signature (Template.compiler_eq_ok.mp hcompiled)
  cases Catalogue.refusesDocuments_of_merge h with
  | text hd hroot hat hl hrefuses =>
    cases hrefuses with
    | mismatch hmem hactual hne =>
      obtain ⟨t, -, hexpected⟩ := hl _ hmem
      exact fun hsame => hne (eq_of_describe_eq (hnames hexpected) (hnames hactual) hsame)

/-- **Descriptions tell signatures apart** whose names are those of templates: equal descriptions
are those of equal signatures, made of the same names and of the same formatters. So a merge that
reports a mismatch of signatures shows two different descriptions. -/
theorem description_identifies :
    (∀ a b : Signature, (∀ p ∈ a.parameters, Template.isName p.name) →
      (∀ p ∈ b.parameters, Template.isName p.name) → a.describe = b.describe → a = b) ∧
      (∀ (params formatters params' formatters' : List Text) (s : Signature),
        Signature.of params formatters = .ok s → Signature.of params' formatters' = .ok s →
          (∀ name, name ∈ params ↔ name ∈ params') ∧
            ∀ name, name ∈ formatters ↔ name ∈ formatters') ∧
        ∀ (documents : List Document) (key locale expected actual : Text),
          (Catalogue.merge Template.compiler documents).outcome =
            .error (.problem (.signatureMismatch key locale expected actual)) →
            expected ≠ actual := by
  refine ⟨fun a b => eq_of_describe_eq, ?_, fun documents key locale expected actual =>
    describe_ne_of_mismatch⟩
  intro params formatters params' formatters' s h h'
  obtain ⟨hnames, hformatters⟩ := mem_parameters_of h
  obtain ⟨hnames', hformatters'⟩ := mem_parameters_of h'
  exact ⟨fun name => (hnames name).trans (hnames' name).symm,
    fun name => (hformatters name).trans (hformatters' name).symm⟩

/-- A parameter that has the name of the mark of formatters, as a value and as a formatter. -/
theorem description_identifies_fn :
    let documents : List Document :=
      [{ locale := "en", tree := .map [(.text "a", .text "\x7bfn\x7d")] },
        { locale := "de", tree := .map [(.text "a", .text "\x7bfn: x\x7d")] }]
    let a : Signature := .ofNames ["fn", "n"] ["fn"]
    let b : Signature := .ofNames ["n", "fn", "n"] ["fn", "fn"]
    (a.describe = b.describe ∧ a = b) ∧
      (Signature.of ["fn", "n"] ["fn"] = .ok a ∧
        Signature.of ["n", "fn", "n"] ["fn", "fn"] = .ok a ∧
        ∀ name : Text, name ∈ (["fn", "n"] : List Text) ↔ name ∈ (["n", "fn", "n"] : List Text)) ∧
        (Catalogue.merge Template.compiler documents).outcome =
          .error (.problem (.signatureMismatch "a" "de" "\x7bfn\x7d" "\x7bfn(fn)\x7d")) ∧
          ("\x7bfn\x7d" : Text) ≠ "\x7bfn(fn)\x7d" := by
  intro documents a b
  obtain ⟨hdescriptions, hnames, hmismatches⟩ := description_identifies
  have hmerge : (Catalogue.merge Template.compiler documents).outcome =
      .error (.problem (.signatureMismatch "a" "de" "\x7bfn\x7d" "\x7bfn(fn)\x7d")) := by cbv
  have ha : Signature.of ["fn", "n"] ["fn"] = .ok a := rfl
  have hb : Signature.of ["n", "fn", "n"] ["fn", "fn"] = .ok a := rfl
  have hdescribe : a.describe = b.describe := rfl
  refine ⟨⟨hdescribe, hdescriptions a b ?_ ?_ hdescribe⟩, ⟨ha, hb, ?_⟩, hmerge,
    hmismatches documents _ _ _ _ hmerge⟩
  · decide
  · decide
  · exact (hnames _ _ _ _ a ha hb).1

end Signature

end Phrasebook
