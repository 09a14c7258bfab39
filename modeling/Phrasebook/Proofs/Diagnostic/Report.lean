import Phrasebook.Diagnostic.Notice

/-! # Outcomes of stages

How a composed stage ends is told by how its parts end; the notices play no role in it. A composed
stage ends well if both of its parts do (`Except.bind_eq_ok`), a list of parts fails if one of them
does (`Except.mapM_eq_error`), and two composed stages end alike if their parts do
(`Except.Agree.bind`). -/

namespace Phrasebook

namespace Report

variable {ε α β : Type}

@[simp] theorem outcome_pure (a : α) : (pure a : Report ε α).outcome = .ok a := rfl

@[simp] theorem outcome_fail (e : ε) : (fail e : Report ε α).outcome = .error e := rfl

@[simp] theorem outcome_tell (n : Notice) : (tell n : Report ε Unit).outcome = .ok () := rfl

@[simp] theorem outcome_bind (r : Report ε α) (f : α → Report ε β) :
    (r >>= f).outcome = r.outcome.bind fun a => (f a).outcome := by
  show (Report.bind r f).outcome = _
  unfold Report.bind
  cases r.outcome <;> rfl

end Report

namespace Except

variable {ε α β γ δ : Type}

theorem bind_eq_ok {x : Except ε α} {f : α → Except ε β} {b : β} :
    x.bind f = .ok b ↔ ∃ a, x = .ok a ∧ f a = .ok b := by
  cases x with
  | error e =>
    constructor
    · intro h
      cases h
    · rintro ⟨a, ha, -⟩
      cases ha
  | ok a =>
    constructor
    · intro h
      exact ⟨a, rfl, h⟩
    · rintro ⟨a', ha, h⟩
      cases ha
      exact h

theorem bind_eq_error {x : Except ε α} {f : α → Except ε β} {e : ε} :
    x.bind f = .error e ↔ x = .error e ∨ ∃ a, x = .ok a ∧ f a = .error e := by
  cases x with
  | error e' =>
    constructor
    · intro h
      cases h
      exact Or.inl rfl
    · rintro (h | ⟨a, ha, -⟩)
      · cases h
        rfl
      · cases ha
  | ok a =>
    constructor
    · intro h
      exact Or.inr ⟨a, rfl, h⟩
    · rintro (h | ⟨a', ha, h⟩)
      · cases h
      · cases ha
        exact h

theorem map_eq_error {x : Except ε α} {f : α → β} {e : ε} :
    x.map f = .error e ↔ x = .error e := by
  cases x with
  | error e' => simp only [Except.map, Except.error.injEq]
  | ok a => exact ⟨nofun, nofun⟩

theorem map_map (x : Except ε α) (f : α → β) (g : β → γ) : (x.map f).map g = x.map (g ∘ f) := by
  cases x <;> rfl

theorem bind_assoc (x : Except ε α) (f : α → Except ε β) (g : β → Except ε γ) :
    (x.bind f).bind g = x.bind fun a => (f a).bind g := by
  cases x <;> rfl

theorem exists_eq_ok {x : Except ε α} (h : x.isOk = true) : ∃ a, x = .ok a := by
  cases x with
  | error e => cases h
  | ok a => exact ⟨a, rfl⟩

/-! #### Lists of parts -/

section MapM
variable {f : α → Except ε β} {l : List α}

theorem mapM_cons (a : α) (l : List α) :
    (a :: l).mapM f = (f a).bind fun b => (l.mapM f).map (b :: ·) := by
  rw [List.mapM_cons]
  cases f a with
  | error e => rfl
  | ok b => cases l.mapM f <;> rfl

theorem mapM_eq_ok {g : α → β} (h : ∀ a ∈ l, f a = .ok (g a)) : l.mapM f = .ok (l.map g) := by
  induction l with
  | nil => rfl
  | cons a l ih =>
    obtain ⟨ha, hl⟩ := List.forall_mem_cons.mp h
    rw [mapM_cons, ha, ih hl]
    rfl

/-- What is done with the results of the parts is done part by part. -/
theorem map_mapM {g : β → γ} {f' : α → Except ε γ} (h : ∀ a ∈ l, (f a).map g = f' a) :
    (l.mapM f).map (List.map g) = l.mapM f' := by
  induction l with
  | nil => rfl
  | cons a l ih =>
    obtain ⟨ha, hl⟩ := List.forall_mem_cons.mp h
    rw [mapM_cons, mapM_cons, ← ha, ← ih hl]
    cases f a with
    | error e => rfl
    | ok b => cases l.mapM f <;> rfl

/-- **Parts that can fail in one way fail together** if one of them does. -/
theorem mapM_eq_error {fault : ε} {P : α → Prop}
    (h : ∀ a ∈ l, ∀ e, f a = .error e ↔ e = fault ∧ P a) (e : ε) :
    l.mapM f = .error e ↔ e = fault ∧ ∃ a ∈ l, P a := by
  induction l with
  | nil =>
    refine ⟨nofun, ?_⟩
    rintro ⟨-, a, ha, -⟩
    cases ha
  | cons a l ih =>
    obtain ⟨ha, hl⟩ := List.forall_mem_cons.mp h
    simp only [mapM_cons, List.mem_cons, exists_eq_or_imp]
    cases hfa : f a with
    | error e' =>
      obtain ⟨rfl, hP⟩ := (ha e').mp hfa
      constructor
      · rintro ⟨⟩
        exact ⟨rfl, .inl hP⟩
      · rintro ⟨rfl, -⟩
        rfl
    | ok b =>
      have hnot : ¬P a := by
        intro hP
        have hfail := (ha fault).mpr ⟨rfl, hP⟩
        rw [hfa] at hfail
        cases hfail
      rw [or_iff_right hnot, ← ih hl]
      cases l.mapM f with
      | error e' => exact Iff.rfl
      | ok bs => exact ⟨nofun, nofun⟩

end MapM

/-! #### Agreement -/

/-- Two outcomes agree: they are the same failure, or successes with related values. -/
inductive Agree (R : α → β → Prop) : Except ε α → Except ε β → Prop where
  | ok {a : α} {b : β} (h : R a b) : Agree R (.ok a) (.ok b)
  | error (e : ε) : Agree R (.error e) (.error e)

theorem Agree.bind {R : α → β → Prop} {S : γ → δ → Prop} {x : Except ε α} {y : Except ε β}
    (h : Agree R x y) {f : α → Except ε γ} {g : β → Except ε δ}
    (hnext : ∀ a b, R a b → Agree S (f a) (g b)) : Agree S (x.bind f) (y.bind g) := by
  cases h with
  | ok hab => exact hnext _ _ hab
  | error e => exact .error e

/-- A further step on one side only, which succeeds. -/
theorem Agree.bind_left {R : α → β → Prop} {S : γ → β → Prop} {x : Except ε α} {y : Except ε β}
    (h : Agree R x y) {f : α → Except ε γ} (hnext : ∀ a b, R a b → Agree S (f a) (.ok b)) :
    Agree S (x.bind f) y := by
  cases h with
  | ok hab => exact hnext _ _ hab
  | error e => exact .error e

theorem Agree.exists_ok_iff {R : α → β → Prop} {x : Except ε α} {y : Except ε β}
    (h : Agree R x y) : (∃ a, x = .ok a) ↔ ∃ b, y = .ok b := by
  cases h with
  | ok hab => exact ⟨fun _ => ⟨_, rfl⟩, fun _ => ⟨_, rfl⟩⟩
  | error e => exact ⟨nofun, nofun⟩

theorem Agree.map_eq {f : α → β} {x : Except ε α} {y : Except ε β}
    (h : Agree (fun a b => f a = b) x y) : x.map f = y := by
  cases h with
  | ok hab => exact congrArg Except.ok hab
  | error e => rfl

theorem Agree.map_eq_map {f : α → γ} {g : β → γ} {x : Except ε α} {y : Except ε β}
    (h : Agree (fun a b => f a = g b) x y) : x.map f = y.map g := by
  cases h with
  | ok hab => exact congrArg Except.ok hab
  | error e => rfl

theorem Agree.imp {R S : α → β → Prop} (himp : ∀ a b, R a b → S a b) {x : Except ε α}
    {y : Except ε β} (h : Agree R x y) : Agree S x y := by
  cases h with
  | ok hab => exact .ok (himp _ _ hab)
  | error e => exact .error e

end Except

end Phrasebook
