import Mathlib.Order.Defs.Unbundled
import Phrasebook.Disk.Machine

/-! # Attempts on a machine

An attempt leads from one machine to another, with an outcome (`Leads`). What a composed attempt leads
to is told by what its parts lead to, for each outcome (`leads_bind_ok`, `leads_bind_error`), and an
operation on the disk does what it says to the disk, or fails without an effect (`leads_operate_ok`,
`leads_operate_error`). A relation between disks that is reflexive and transitive holds before and
after an attempt if it does so for its parts (`Keeps`). -/

namespace Phrasebook.Machine

/-- **An attempt leads from a machine to another**, with an outcome. -/
def Leads {ε α : Type} (x : ExceptT ε (StateM Machine) α) (s : Machine) (r : Except ε α)
    (s' : Machine) : Prop :=
  (x.run.run s).run = (r, s')

section Leads
variable {ε ε' α β : Type} {s s' : Machine}

theorem exists_leads (x : ExceptT ε (StateM Machine) α) (s : Machine) :
    ∃ r s', Leads x s r s' := ⟨_, _, rfl⟩

/-- An attempt leads to one outcome and one machine only. -/
theorem Leads.unique {x : ExceptT ε (StateM Machine) α} {r r' : Except ε α} {t : Machine}
    (h : Leads x s r s') (h' : Leads x s r' t) : r = r' ∧ s' = t :=
  Prod.mk.inj (h.symm.trans h')

/-! ### Composed attempts -/

theorem leads_pure {a : α} {r : Except ε α} : Leads (pure a) s r s' ↔ r = .ok a ∧ s' = s := by
  show ((.ok a, s) : Except ε α × Machine) = (r, s') ↔ _
  rw [Prod.mk.injEq]
  exact and_congr eq_comm eq_comm

theorem leads_throw {e : ε} {r : Except ε α} :
    Leads (throw e) s r s' ↔ r = .error e ∧ s' = s := by
  show ((.error e, s) : Except ε α × Machine) = (r, s') ↔ _
  rw [Prod.mk.injEq]
  exact and_congr eq_comm eq_comm

theorem leads_outcome {x : Except ε α} {r : Except ε α} :
    Leads (ExceptT.mk (pure x)) s r s' ↔ r = x ∧ s' = s := by
  show ((x, s) : Except ε α × Machine) = (r, s') ↔ _
  rw [Prod.mk.injEq]
  exact and_congr eq_comm eq_comm

theorem leads_lift {x : StateM Machine α} {r : Except ε α} :
    Leads (ExceptT.lift x) s r s' ↔ ∃ a, r = .ok a ∧ (x.run s).run = (a, s') := by
  show ((.ok (x.run s).run.1, (x.run s).run.2) : Except ε α × Machine) = (r, s') ↔ _
  cases (x.run s).run with
  | mk a t =>
    constructor
    · rintro ⟨⟩
      exact ⟨a, rfl, rfl⟩
    · rintro ⟨_, rfl, ⟨⟩⟩
      rfl

theorem leads_bind {x : ExceptT ε (StateM Machine) α} {f : α → ExceptT ε (StateM Machine) β}
    {r : Except ε β} : Leads (x >>= f) s r s' ↔
      (∃ a t, Leads x s (.ok a) t ∧ Leads (f a) t r s') ∨
        ∃ e, r = .error e ∧ Leads x s (.error e) s' := by
  have h : ((x >>= f).run.run s).run =
      ((ExceptT.bindCont f (x.run.run s).run.1).run (x.run.run s).run.2).run := rfl
  unfold Leads
  rw [h]
  cases (x.run.run s).run with
  | mk first t =>
    cases first with
    | ok a =>
      constructor
      · exact fun h => .inl ⟨a, t, rfl, h⟩
      · rintro (⟨_, _, ⟨⟩, h⟩ | ⟨_, -, ⟨⟩⟩)
        exact h
    | error e =>
      constructor
      · rintro ⟨⟩
        exact .inr ⟨e, rfl, rfl⟩
      · rintro (⟨_, _, ⟨⟩, -⟩ | ⟨_, rfl, ⟨⟩⟩)
        rfl

theorem leads_bind_ok {x : ExceptT ε (StateM Machine) α}
    {f : α → ExceptT ε (StateM Machine) β} {b : β} : Leads (x >>= f) s (.ok b) s' ↔
      ∃ a t, Leads x s (.ok a) t ∧ Leads (f a) t (.ok b) s' := by
  rw [leads_bind]
  refine or_iff_left ?_
  rintro ⟨_, ⟨⟩, -⟩

/-- A composed attempt fails if its first part does, or the rest after it. -/
theorem leads_bind_error {x : ExceptT ε (StateM Machine) α}
    {f : α → ExceptT ε (StateM Machine) β} {e : ε} : Leads (x >>= f) s (.error e) s' ↔
      Leads x s (.error e) s' ∨ ∃ a t, Leads x s (.ok a) t ∧ Leads (f a) t (.error e) s' := by
  rw [leads_bind, or_comm]
  refine or_congr_left ⟨?_, fun h => ⟨e, rfl, h⟩⟩
  rintro ⟨_, ⟨⟩, h⟩
  exact h

theorem not_leads_lift_error {x : StateM Machine α} {e : ε} :
    ¬ Leads (ExceptT.lift x) s (.error e) s' := by
  intro h
  obtain ⟨_, hr, -⟩ := leads_lift.mp h
  cases hr

theorem leads_tryCatch {x : ExceptT ε (StateM Machine) α}
    {handler : ε → ExceptT ε (StateM Machine) α} {r : Except ε α} :
    Leads (tryCatch x handler) s r s' ↔ (∃ a, r = .ok a ∧ Leads x s (.ok a) s') ∨
      ∃ e t, Leads x s (.error e) t ∧ Leads (handler e) t r s' := by
  unfold Leads
  rw [ExceptT.run_tryCatch, StateT.run_bind, Id.run_bind]
  cases (x.run.run s).run with
  | mk first t =>
    cases first with
    | ok a =>
      constructor
      · rintro ⟨⟩
        exact .inl ⟨a, rfl, rfl⟩
      · rintro (⟨_, rfl, ⟨⟩⟩ | ⟨_, _, ⟨⟩, -⟩)
        rfl
    | error e =>
      constructor
      · exact fun h => .inr ⟨e, t, rfl, h⟩
      · rintro (⟨_, -, ⟨⟩⟩ | ⟨_, _, ⟨⟩, h⟩)
        exact h

theorem leads_tryCatch_error {x : ExceptT ε (StateM Machine) α}
    {handler : ε → ExceptT ε (StateM Machine) α} {e : ε} :
    Leads (tryCatch x handler) s (.error e) s' ↔
      ∃ e' t, Leads x s (.error e') t ∧ Leads (handler e') t (.error e) s' := by
  rw [leads_tryCatch]
  refine or_iff_right ?_
  rintro ⟨_, ⟨⟩, -⟩

theorem run_adapt (g : ε → ε') (x : ExceptT ε (StateM Machine) α) (s : Machine) :
    ((ExceptT.adapt g x).run.run s).run =
      ((x.run.run s).run.1.mapError g, (x.run.run s).run.2) := rfl

theorem leads_adapt_ok {g : ε → ε'} {x : ExceptT ε (StateM Machine) α} {a : α} :
    Leads (ExceptT.adapt g x) s (.ok a) s' ↔ Leads x s (.ok a) s' := by
  unfold Leads
  rw [run_adapt]
  cases (x.run.run s).run with
  | mk first t =>
    cases first with
    | ok a =>
      constructor
      · rintro ⟨⟩
        rfl
      · rintro ⟨⟩
        rfl
    | error e => exact ⟨nofun, nofun⟩

theorem leads_adapt_error {g : ε → ε'} {x : ExceptT ε (StateM Machine) α} {e' : ε'} :
    Leads (ExceptT.adapt g x) s (.error e') s' ↔ ∃ e, e' = g e ∧ Leads x s (.error e) s' := by
  unfold Leads
  rw [run_adapt]
  cases (x.run.run s).run with
  | mk first t =>
    cases first with
    | ok a =>
      refine ⟨nofun, ?_⟩
      rintro ⟨_, -, ⟨⟩⟩
    | error e =>
      constructor
      · rintro ⟨⟩
        exact ⟨e, rfl, rfl⟩
      · rintro ⟨_, rfl, ⟨⟩⟩
        rfl

/-! ### Operations -/

/-- **An operation does what it says** to the disk, or it fails without an effect. -/
theorem leads_operate {operation : Disk → Except FileFault (α × Disk)} {r : Except FileFault α}
    (h : Leads (operate operation) s r s') :
    (∃ a, r = .ok a ∧ operation s.disk = .ok (a, s'.disk)) ∨
      (∃ fault, r = .error fault) ∧ s'.disk = s.disk := by
  simp only [Leads, operate, ExceptT.run_mk, StateT.run, Id.run] at h
  split at h
  · cases h
    exact .inr ⟨⟨_, rfl⟩, rfl⟩
  · split at h
    next a disk hoperation =>
      cases h
      exact .inl ⟨a, rfl, hoperation⟩
    · cases h
      exact .inr ⟨⟨_, rfl⟩, rfl⟩
  · split at h
    next a disk hoperation =>
      cases h
      exact .inl ⟨a, rfl, hoperation⟩
    · cases h
      exact .inr ⟨⟨_, rfl⟩, rfl⟩

theorem leads_operate_ok {operation : Disk → Except FileFault (α × Disk)} {a : α}
    (h : Leads (operate operation) s (.ok a) s') : operation s.disk = .ok (a, s'.disk) := by
  rcases leads_operate h with ⟨_, hr, hoperation⟩ | ⟨⟨_, hr⟩, -⟩
  · cases hr
    exact hoperation
  · cases hr

theorem leads_operate_error {operation : Disk → Except FileFault (α × Disk)} {fault : FileFault}
    (h : Leads (operate operation) s (.error fault) s') : s'.disk = s.disk := by
  rcases leads_operate h with ⟨_, hr, -⟩ | ⟨-, hdisk⟩
  · cases hr
  · exact hdisk

/-- An operation that succeeds, where none is planned to fail. -/
theorem leads_operate_of_eq_ok {operation : Disk → Except FileFault (α × Disk)} {a : α} {d : Disk}
    (h : operation s.disk = .ok (a, d)) (hplan : s.plan = []) :
    Leads (operate operation) s (.ok a) { s with disk := d } := by
  simp only [Leads, operate, ExceptT.run_mk, StateT.run, Id.run, hplan, h]

theorem leads_ask_ok {question : Disk → Except FileFault α} {a : α}
    (h : Leads (ask question) s (.ok a) s') : question s.disk = .ok a ∧ s'.disk = s.disk := by
  have hquestion := leads_operate_ok h
  cases hresult : question s.disk with
  | error fault =>
    rw [hresult] at hquestion
    cases hquestion
  | ok b =>
    rw [hresult] at hquestion
    obtain ⟨hb, hdisk⟩ := Prod.mk.inj (Except.ok.inj hquestion)
    exact ⟨congrArg Except.ok hb, hdisk.symm⟩

/-- A question that is answered, where none is planned to fail. -/
theorem leads_ask_of_eq_ok {question : Disk → Except FileFault α} {a : α}
    (h : question s.disk = .ok a) (hplan : s.plan = []) : Leads (ask question) s (.ok a) s := by
  refine leads_operate_of_eq_ok (d := s.disk) ?_ hplan
  rw [h]
  rfl

theorem leads_change_ok {step : Disk → Except FileFault Disk} {u : Unit}
    (h : Leads (change step) s (.ok u) s') : step s.disk = .ok s'.disk := by
  have hstep := leads_operate_ok h
  cases hresult : step s.disk with
  | error fault =>
    rw [hresult] at hstep
    cases hstep
  | ok disk =>
    rw [hresult] at hstep
    cases hstep
    rfl

/-- A change that is made, where none is planned to fail. -/
theorem leads_change_of_eq_ok {step : Disk → Except FileFault Disk} {d : Disk}
    (h : step s.disk = .ok d) (hplan : s.plan = []) :
    Leads (change step) s (.ok ()) { s with disk := d } := by
  refine leads_operate_of_eq_ok ?_ hplan
  rw [h]
  rfl

theorem leads_change_error {step : Disk → Except FileFault Disk} {fault : FileFault}
    (h : Leads (change step) s (.error fault) s') : s'.disk = s.disk := leads_operate_error h

end Leads

/-! ### What an attempt keeps -/

/-- **A relation between disks holds** before and after an attempt, however it ends. -/
def Keeps {ε α : Type} (R : Disk → Disk → Prop) (x : ExceptT ε (StateM Machine) α) : Prop :=
  ∀ s r s', Leads x s r s' → R s.disk s'.disk

section Keeps
variable {ε ε' α β : Type} {R : Disk → Disk → Prop}

theorem Keeps.adapt {x : ExceptT ε (StateM Machine) α} (h : Keeps R x) (g : ε → ε') :
    Keeps R (ExceptT.adapt g x) := by
  intro s r s' hadapt
  cases r with
  | ok a => exact h _ _ _ (leads_adapt_ok.mp hadapt)
  | error e =>
    obtain ⟨_, -, hx⟩ := leads_adapt_error.mp hadapt
    exact h _ _ _ hx

section Refl
variable [Std.Refl R]

theorem keeps_pure (a : α) : Keeps R (pure a : ExceptT ε (StateM Machine) α) := by
  intro s r s' h
  rw [(leads_pure.mp h).2]
  exact Std.Refl.refl _

theorem keeps_throw (e : ε) : Keeps R (throw e : ExceptT ε (StateM Machine) α) := by
  intro s r s' h
  rw [(leads_throw.mp h).2]
  exact Std.Refl.refl _

theorem keeps_outcome (x : Except ε α) :
    Keeps R (ExceptT.mk (pure x) : ExceptT ε (StateM Machine) α) := by
  intro s r s' h
  rw [(leads_outcome.mp h).2]
  exact Std.Refl.refl _

theorem keeps_ask (question : Disk → Except FileFault α) : Keeps R (ask question) := by
  intro s r s' h
  have hdisk : s'.disk = s.disk := by
    cases r with
    | error fault => exact leads_operate_error h
    | ok a => exact (leads_ask_ok h).2
  rw [hdisk]
  exact Std.Refl.refl _

theorem keeps_change {step : Disk → Except FileFault Disk}
    (h : ∀ d d', step d = .ok d' → R d d') : Keeps R (change step) := by
  intro s r s' hchange
  cases r with
  | ok u => exact h _ _ (leads_change_ok hchange)
  | error fault =>
    rw [leads_operate_error hchange]
    exact Std.Refl.refl _

/-- What does not touch the disk. -/
theorem keeps_lift {x : StateM Machine α} (h : ∀ s : Machine, (x.run s).run.2.disk = s.disk) :
    Keeps R (ExceptT.lift x : ExceptT ε (StateM Machine) α) := by
  intro s r s' hlift
  obtain ⟨a, -, hx⟩ := leads_lift.mp hlift
  have hdisk := h s
  rw [hx] at hdisk
  rw [hdisk]
  exact Std.Refl.refl _

end Refl

section Trans
variable [Trans R R R]

theorem Keeps.bind {x : ExceptT ε (StateM Machine) α} (h : Keeps R x)
    {f : α → ExceptT ε (StateM Machine) β} (hf : ∀ a, Keeps R (f a)) : Keeps R (x >>= f) := by
  intro s r s' hbind
  rcases leads_bind.mp hbind with ⟨a, t, hx, hrest⟩ | ⟨e, -, hx⟩
  · exact Trans.trans (h _ _ _ hx) (hf a _ _ _ hrest)
  · exact h _ _ _ hx

theorem Keeps.tryCatch {x : ExceptT ε (StateM Machine) α} (h : Keeps R x)
    {handler : ε → ExceptT ε (StateM Machine) α} (hhandler : ∀ e, Keeps R (handler e)) :
    Keeps R (tryCatch x handler) := by
  intro s r s' htry
  rcases leads_tryCatch.mp htry with ⟨a, -, hx⟩ | ⟨e, t, hx, hrest⟩
  · exact h _ _ _ hx
  · exact Trans.trans (h _ _ _ hx) (hhandler e _ _ _ hrest)

end Trans

end Keeps

end Phrasebook.Machine
