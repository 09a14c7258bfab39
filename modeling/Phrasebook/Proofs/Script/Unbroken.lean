import Phrasebook.Proofs.Script.Render
import Phrasebook.Proofs.Template.Names
import Phrasebook.Proofs.Text.Spelling

/-! # Script on one line

No literal and no script of a template holds a line feed (`unbroken_quoted`, `unbroken_compile`).
Indentation leaves such a text as it is (`Unbroken.padAfterBreaks`), and it is found again in the
lines around it (`Unbroken.infix_padLineStarts`). -/

namespace Phrasebook

/-- **A text without line feeds.** -/
def Unbroken (t : Text) : Prop := CodePoint.lf ∉ t

instance (t : Text) : Decidable (Unbroken t) := inferInstanceAs (Decidable (_ ∉ _))

/-! ### What keeps a text on one line -/

theorem Unbroken.append {t u : Text} (ht : Unbroken t) (hu : Unbroken u) : Unbroken (t ++ u) :=
  fun h => (List.mem_append.mp h).elim ht hu

theorem unbroken_flatten {parts : List Text} (h : ∀ t ∈ parts, Unbroken t) :
    Unbroken parts.flatten := by
  intro hlf
  obtain ⟨t, ht, hmem⟩ := List.mem_flatten.mp hlf
  exact h t ht hmem

theorem unbroken_flatMap {α : Type} {xs : List α} {f : α → Text} (h : ∀ x ∈ xs, Unbroken (f x)) :
    Unbroken (xs.flatMap f) := by
  intro hlf
  obtain ⟨x, hx, hmem⟩ := List.mem_flatMap.mp hlf
  exact h x hx hmem

theorem unbroken_join {separator : Text} (hseparator : Unbroken separator) {parts : List Text}
    (h : ∀ t ∈ parts, Unbroken t) : Unbroken (Text.join separator parts) :=
  Text.join_induction List.not_mem_nil Unbroken.append hseparator h

/-! ### Indentation -/

theorem Unbroken.padAfterBreaks {t : Text} (h : Unbroken t) (pad : Text) :
    Code.padAfterBreaks pad t = t := by
  unfold Code.padAfterBreaks
  induction t with
  | nil => rfl
  | cons c t ih =>
    obtain ⟨hc, ht⟩ := not_or.mp (mt List.mem_cons.mpr h)
    rw [List.flatMap_cons, if_neg (Ne.symm hc), ih ht, List.singleton_append]

theorem Unbroken.padAfterBreaks_append {t : Text} (h : Unbroken t) (pad u : Text) :
    Code.padAfterBreaks pad (t ++ u) = t ++ Code.padAfterBreaks pad u := by
  rw [Code.padAfterBreaks_append, h.padAfterBreaks]

/-- A text without line feeds stands in indented lines where it stood before. -/
theorem Unbroken.infix_padLineStarts {t u : Text} (h : Unbroken t) (hin : t <:+: u) (pad : Text)
    (atLineStart : Bool) : t <:+: Code.padLineStarts pad atLineStart u := by
  obtain ⟨before, after, rfl⟩ := hin
  rw [Code.padLineStarts_append, Code.padLineStarts_append]
  have hline : t <:+: Code.padLineStarts pad (Code.beginsLine atLineStart before) t := by
    rw [Code.padLineStarts_line h]
    split_ifs with hempty
    · obtain rfl := List.isEmpty_iff.mp hempty
      exact List.infix_rfl
    · exact (List.suffix_append pad t).isInfix
    · exact List.infix_rfl
  exact (hline.trans (List.suffix_append _ _).isInfix).trans (List.prefix_append _ _).isInfix

/-! ### Literals -/

theorem Text.Spelling.unbroken {special : List CodePoint} {c : CodePoint} {t : Text}
    (h : Text.Spelling special c t) (hlf : CodePoint.lf ∈ special) : Unbroken t := by
  have hbackslash : CodePoint.lf ≠ CodePoint.backslash := by decide
  cases h with
  | @letter d h =>
    intro hmem
    rcases List.mem_cons.mp hmem with hd | hd
    · exact hbackslash hd
    · obtain rfl := List.mem_singleton.mp hd
      cases h
  | number h =>
    have hdigits : ∀ d < 16, CodePoint.lf ≠ CodePoint.ofChar (Nat.digitChar d) := by decide
    intro hmem
    rw [Text.escape_eq] at hmem
    simp only [List.mem_cons, List.mem_map] at hmem
    rcases hmem with hd | hd | ⟨d, hd, hlf⟩
    · exact hbackslash hd
    · exact absurd hd (by decide)
    · refine hdigits d ?_ hlf.symm
      rcases hd with rfl | rfl | rfl | rfl | hd
      · exact Nat.mod_lt _ (by decide)
      · exact Nat.mod_lt _ (by decide)
      · exact Nat.mod_lt _ (by decide)
      · exact Nat.mod_lt _ (by decide)
      · cases hd
  | itself h =>
    intro hmem
    rw [← List.mem_singleton.mp hmem] at h
    exact h hlf

theorem unbroken_quoted (t : Text) : Unbroken t.quoted := by
  have hmark : Unbroken [CodePoint.doubleQuote] := by decide
  have hletters : Unbroken (t.flatMap fun c => Text.spellSurrogates (Text.quotedPoint c)) :=
    unbroken_flatMap fun c _ =>
      (Text.spelling_quotedPoint c).spellSurrogates.unbroken (by decide)
  rw [Text.quoted_eq]
  exact (hmark.append hletters).append hmark

theorem unbroken_templateText (t : Text) : Unbroken (Code.templateText t) := by
  rw [Text.templateText_eq]
  exact unbroken_flatMap fun c _ =>
    (Text.spelling_templatePoint c).spellSurrogates.unbroken (by decide)

theorem unbroken_template {first : Text} {rest : List (Fragment × Text)}
    (h : ∀ p ∈ rest, Unbroken p.1.render) : Unbroken (Code.template first rest).render := by
  have hbacktick : Unbroken [CodePoint.backtick] := by decide
  have hstart : Unbroken Code.interpolationStart := by decide
  have hend : Unbroken Code.interpolationEnd := by decide
  rw [Code.render_template]
  refine hbacktick.append (((unbroken_templateText first).append ?_).append hbacktick)
  refine unbroken_flatMap fun p hp => ?_
  exact ((hstart.append (h p hp)).append hend).append (unbroken_templateText p.2)

/-! ### Templates -/

namespace Template

theorem unbroken_name {name : Text} (h : isName name) : Unbroken name :=
  not_mem_of_isName h (by decide)

theorem unbroken_parameterScript {name : Text} (h : isName name) :
    Unbroken (parameterScript name) := by
  have hparams : Unbroken "params." := by decide
  exact hparams.append (unbroken_name h)

theorem unbroken_applicationScript {name : Text} (h : isName name) {body : Code}
    (hbody : Unbroken body.render) : Unbroken (applicationScript name body).render := by
  have hopen : Unbroken "(" := by decide
  have hclose : Unbroken ")" := by decide
  unfold applicationScript
  rw [Code.render_concat]
  refine unbroken_flatten ?_
  simp only [List.map_cons, List.map_nil, List.forall_mem_cons]
  exact ⟨(unbroken_parameterScript h).append hopen, hbody, hclose, List.forall_mem_nil _⟩

theorem unbroken_chunks (elements : List Element) (h : WellNamed elements) :
    ∀ p ∈ (chunks elements).2, Unbroken p.1.render :=
  forall_chunks (P := fun f => Unbroken f.render) unbroken_parameterScript
    (fun hname hbody => unbroken_applicationScript hname (unbroken_template hbody)) elements h

/-- **The script of a template is on one line.** -/
theorem unbroken_compile {source : Text} {compiled : CompiledTemplate}
    (h : compile source = .ok compiled) : Unbroken compiled.expression := by
  obtain ⟨elements, s, hparse, -, rfl⟩ := compile_eq_ok h
  show Unbroken (expressionScript s elements)
  unfold expressionScript
  split_ifs
  · exact unbroken_quoted _
  · have hhead : Unbroken functionHead := by decide
    exact hhead.append (unbroken_template (unbroken_chunks elements (wellNamed_parse hparse)))

end Template

end Phrasebook
