import Mathlib.Logic.Basic
import Mathlib.Tactic.ByContra
import Mathlib.Tactic.SplitIfs
import Phrasebook.Document.KeyPath
import Phrasebook.Proofs.Diagnostic.Report

/-! # Paths that are written

A name is written as it is, and an index unless it has too many digits. So a path has a key and an
accessor, or each of them fails for the same reason (`KeyPath.writeKey_eq_error`,
`KeyPath.writeAccessor_eq_error`). -/

namespace Phrasebook

theorem Numeral.write_eq_error {n : Int} {c : Crash} :
    write n = .error c ↔ c = .integerUnwritable ∧ ¬Writable n := by
  unfold write
  split_ifs with h
  · exact ⟨nofun, fun hnot => absurd h hnot.2⟩
  · rw [Except.error.injEq, and_iff_left h]
    exact eq_comm

namespace Segment

/-- The step is no index with too many digits. -/
def Writable : Segment → Prop
  | name _ => True
  | index n => Numeral.Writable n

variable {s : Segment} {c : Crash}

theorem write_of_writable (h : s.Writable) : s.write = .ok s.toText := by
  cases s with
  | name t => rfl
  | index n => exact if_pos h

theorem write_eq_error : s.write = .error c ↔ c = .integerUnwritable ∧ ¬s.Writable := by
  cases s with
  | name t => exact ⟨nofun, fun h => absurd trivial h.2⟩
  | index n => exact Numeral.write_eq_error

theorem writeSubscript_of_writable (h : s.Writable) : s.writeSubscript = .ok s.subscript := by
  cases s with
  | name t => rfl
  | index n =>
    have hwrite : Numeral.write n = .ok (Numeral.ofInt n) := if_pos h
    rw [writeSubscript, hwrite]
    rfl

theorem writeSubscript_eq_error :
    s.writeSubscript = .error c ↔ c = .integerUnwritable ∧ ¬s.Writable := by
  cases s with
  | name t => exact ⟨nofun, fun h => absurd trivial h.2⟩
  | index n => exact Except.map_eq_error.trans Numeral.write_eq_error

end Segment

namespace KeyPath

/-- **A path that can be written**: none of its indices has too many digits. -/
def Writable (p : KeyPath) : Prop := ∀ s ∈ p.segments, s.Writable

variable {p : KeyPath} {c : Crash}

theorem not_writable_iff : ¬p.Writable ↔ ∃ s ∈ p.segments, ¬s.Writable := by
  simp only [Writable, not_forall, exists_prop]

theorem writeKey_of_writable (h : p.Writable) : p.writeKey = .ok p.key := by
  unfold writeKey
  rw [Except.mapM_eq_ok fun s hs => Segment.write_of_writable (h s hs)]
  rfl

/-- The key fails to be written only if a numeral does. -/
theorem writeKey_eq_error : p.writeKey = .error c ↔ c = .integerUnwritable ∧ ¬p.Writable := by
  rw [not_writable_iff]
  exact Except.map_eq_error.trans (Except.mapM_eq_error (fun s _ _ => Segment.write_eq_error) c)

theorem writeAccessor_of_writable (h : p.Writable) : p.writeAccessor = .ok p.accessor := by
  unfold writeAccessor
  rw [Except.mapM_eq_ok fun s hs => Segment.writeSubscript_of_writable (h s hs)]
  rfl

/-- The accessor fails to be written only if a numeral does. -/
theorem writeAccessor_eq_error :
    p.writeAccessor = .error c ↔ c = .integerUnwritable ∧ ¬p.Writable := by
  rw [not_writable_iff]
  exact Except.map_eq_error.trans
    (Except.mapM_eq_error (fun s _ _ => Segment.writeSubscript_eq_error) c)

theorem writeAccessor_eq_ok {t : Text} (h : p.writeAccessor = .ok t) :
    p.Writable ∧ t = p.accessor := by
  have hwritable : p.Writable := by
    by_contra hnot
    rw [writeAccessor_eq_error.mpr ⟨rfl, hnot⟩] at h
    cases h
  rw [writeAccessor_of_writable hwritable] at h
  exact ⟨hwritable, (Except.ok.inj h).symm⟩

/-- Paths of names are written. -/
theorem writable_of_names (h : ∀ s ∈ p.segments, ∃ name, s = .name name) : p.Writable := by
  intro s hs
  obtain ⟨name, rfl⟩ := h s hs
  trivial

theorem notFound_of_writable (h : p.Writable) : p.notFound = .notFound p.key := by
  unfold notFound
  rw [writeKey_of_writable h]

end KeyPath

end Phrasebook
