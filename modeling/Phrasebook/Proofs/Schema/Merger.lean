import Phrasebook.Proofs.Diagnostic.Report
import Phrasebook.Schema.Merger

/-! # What a merge accepts

A text that is accepted compiles, and it either defines a key that is new or adds a locale to the
key of its path (`addText_eq_ok`). What holds of the empty catalogue and is kept by the accepted
texts therefore holds of every catalogue after documents were added (`addDocuments_induction`). -/

namespace Phrasebook.Catalogue

section AddText
variable {compiler : Compiler} {c c' : Catalogue} {arena : Arena} {parent : Nat} {segment : Segment}
  {path : KeyPath} {locale value key : Text}

theorem compileText_eq_ok {compiled : CompiledTemplate} :
    (compileText compiler key locale value).outcome = .ok compiled ↔
      compiler value = .ok compiled := by
  unfold compileText
  cases compiler value with
  | ok found =>
    constructor <;>
    · intro h
      cases h
      rfl
  | error f => cases f <;> exact ⟨nofun, nofun⟩

/-- The catalogue with a new key at a path, which the text of a locale defines. -/
def defined (c : Catalogue) (arena : Arena) (path : KeyPath) (locale : Text)
    (compiled : CompiledTemplate) : Catalogue :=
  { c with
    arena
    entries := c.entries.put path.key
      (Entry.add { path, signature := compiled.signature } locale compiled) }

/-- The catalogue with the text of one more locale at a key. -/
def extended (c : Catalogue) (arena : Arena) (e : Entry) (locale : Text)
    (compiled : CompiledTemplate) : Catalogue :=
  { c with arena, entries := c.entries.put e.key (e.add locale compiled) }

theorem define_eq_ok
    (h : (define compiler c arena parent segment path locale value).outcome = .ok c') :
    c.entries.get? path.key = none ∧ ∃ compiled, compiler value = .ok compiled ∧
      c' = c.defined (arena.addChild parent segment (.leaf path)).1 path locale compiled := by
  unfold define at h
  cases hkey : c.entries.get? path.key with
  | some e =>
    rw [hkey] at h
    cases h
  | none =>
    simp only [hkey, Report.outcome_bind, Except.bind_eq_ok, compileText_eq_ok] at h
    obtain ⟨compiled, hcompiled, -, -, h⟩ := h
    exact ⟨rfl, compiled, hcompiled, (Except.ok.inj h).symm⟩

theorem extend_eq_ok {e : Entry}
    (h : (extend compiler c arena e locale value).outcome = .ok c') :
    ∃ compiled, compiler value = .ok compiled ∧ e.signature.isCompatible compiled.signature ∧
      c' = c.extended arena e locale compiled := by
  unfold extend at h
  simp only [Report.outcome_bind, Except.bind_eq_ok, compileText_eq_ok] at h
  obtain ⟨compiled, hcompiled, h⟩ := h
  by_cases hs : e.signature.isCompatible compiled.signature = true
  · rw [if_pos hs] at h
    exact ⟨compiled, hcompiled, hs, (Except.ok.inj h).symm⟩
  · rw [if_neg hs] at h
    cases h

/-- **An accepted text** defines a new key or adds a locale to the key of its path. -/
theorem addText_eq_ok (h : (c.addText compiler path locale value).outcome = .ok c') :
    ∃ arena compiled, compiler value = .ok compiled ∧
      ((c.entries.get? path.key = none ∧ c' = c.defined arena path locale compiled) ∨
        ∃ e, c.entries.get? path.key = some e ∧ e.signature.isCompatible compiled.signature ∧
          c' = c.extended arena e locale compiled) := by
  have hdefine : ∀ {arena parent segment},
      (define compiler c arena parent segment path locale value).outcome = .ok c' →
        ∃ arena compiled, compiler value = .ok compiled ∧
          ((c.entries.get? path.key = none ∧ c' = c.defined arena path locale compiled) ∨
            ∃ e, c.entries.get? path.key = some e ∧ e.signature.isCompatible compiled.signature ∧
              c' = c.extended arena e locale compiled) := by
    intro arena parent segment h
    obtain ⟨hkey, compiled, hcompiled, rfl⟩ := define_eq_ok h
    exact ⟨_, compiled, hcompiled, Or.inl ⟨hkey, rfl⟩⟩
  unfold addText at h
  split at h
  · cases h
  · split at h
    · cases h
    · split at h
      · exact hdefine h
      · cases h
      · split at h
        next e hkey =>
          obtain ⟨compiled, hcompiled, hs, rfl⟩ := extend_eq_ok h
          exact ⟨_, compiled, hcompiled, Or.inr ⟨e, hkey, hs, rfl⟩⟩
        next => exact hdefine h

end AddText

/-! ### Properties of merged catalogues -/

section Induction
variable {compiler : Compiler} {P : Catalogue → Prop}
  (locales : ∀ {c : Catalogue} (l : List Text), P c → P { c with locales := l })
  (text : ∀ {c c' : Catalogue} {path : KeyPath} {locale value : Text}, P c →
    (c.addText compiler path locale value).outcome = .ok c' → P c')
include text

theorem addVisits_induction {c : Catalogue} (hc : P c) {locale : Text} {visits : List Visit}
    {count : Nat} {c' : Catalogue} {count' : Nat}
    (h : (addVisits compiler locale c count visits).outcome = .ok (c', count')) : P c' := by
  induction visits generalizing c count with
  | nil =>
    cases h
    exact hc
  | cons visit rest ih =>
    cases visit with
    | text path value =>
      simp only [addVisits, Report.outcome_bind, Except.bind_eq_ok] at h
      obtain ⟨next, hnext, h⟩ := h
      exact ih (text hc hnext) h
    | skipped path typeName => exact ih hc h
    | refused problem => cases h

include locales

/-- **What accepted texts keep** holds after documents were added. -/
theorem addDocuments_induction {guard : NestingGuard} {documents : List Document} {c : Catalogue}
    (hc : P c) {c' : Catalogue} (h : (addDocuments compiler guard c documents).outcome = .ok c') :
    P c' := by
  induction documents generalizing c with
  | nil =>
    cases h
    exact hc
  | cons document rest ih =>
    simp only [addDocuments, Report.outcome_bind, Except.bind_eq_ok] at h
    obtain ⟨next, hnext, h⟩ := h
    refine ih ?_ h
    unfold addDocument at hnext
    split at hnext
    · simp only [Report.outcome_bind, Except.bind_eq_ok] at hnext
      obtain ⟨⟨merged, count⟩, hvisits, -, -, hmerged⟩ := hnext
      cases hmerged
      exact addVisits_induction text (locales _ hc) hvisits
    · cases hnext

end Induction

theorem merge_eq_ok {compiler : Compiler} {documents : List Document} {c : Catalogue} :
    (merge compiler documents).outcome = .ok c ↔
      (addDocuments compiler (.ofLimit NestingGuard.usualLimit) {} documents).outcome = .ok c := by
  unfold merge
  rw [Report.outcome_bind, Except.bind_eq_ok]
  constructor
  · rintro ⟨merged, hmerged, hc⟩
    cases hc
    exact hmerged
  · intro h
    exact ⟨c, h, rfl⟩

end Phrasebook.Catalogue
