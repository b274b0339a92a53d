/-
  Clausal.Proofs.Run

  Runs as sequences of steps. `Machine.Reaches` forgets how many calls a run may enter; what a
  run came to is a machine that is reached and has a result (`run_of_reaches`, `run_reaches`).
  A larger limit therefore changes nothing about a run that has ended, and whatever one step
  keeps, a whole run keeps (`Reaches.invariant`).

  An evaluation is then described without `run`: either it was given up, or it is the account of
  a machine with a result (`Evaluator.finish_cases`).
-/
import Clausal.Evaluator
import Mathlib.Data.List.Basic
import Mathlib.Logic.Function.Iterate
import Mathlib.Logic.Relation
import Mathlib.Order.MinMax

namespace Clausal

namespace Machine

variable {program : Program} {config : Config}

/-- One machine comes to be another in some number of steps. -/
def Reaches (program : Program) (config : Config) : Machine → Machine → Prop :=
  Relation.ReflTransGen fun m m' => m.step program config = m'

namespace Reaches

theorem refl (m : Machine) : Reaches program config m m := Relation.ReflTransGen.refl

theorem step (m : Machine) : Reaches program config m (m.step program config) :=
  Relation.ReflTransGen.single rfl

theorem trans {m₁ m₂ m₃ : Machine} (h : Reaches program config m₁ m₂)
    (h' : Reaches program config m₂ m₃) : Reaches program config m₁ m₃ :=
  Relation.ReflTransGen.trans h h'

/-- What follows from the first step follows from the machine before it. -/
theorem of_step {m m' : Machine} (h : Reaches program config (m.step program config) m') :
    Reaches program config m m' :=
  (step m).trans h

/-- A run has not begun, or it goes on from the first step. -/
theorem cases_step {m m' : Machine} (h : Reaches program config m m') :
    m' = m ∨ Reaches program config (m.step program config) m' := by
  rcases Relation.ReflTransGen.cases_head h with heq | ⟨next, hnext, hrest⟩
  · exact .inl heq.symm
  · right
    rw [hnext]
    exact hrest

/-- What every step keeps is kept by a whole run. -/
theorem invariant {P : Machine → Prop} (hstep : ∀ m, P m → P (m.step program config))
    {m m' : Machine} (h : Reaches program config m m') (hm : P m) : P m' := by
  induction h with
  | refl => exact hm
  | tail _ hlast ih => exact hlast ▸ hstep _ ih

/-- What a step leaves behind as it found it can be carried back along a whole run. -/
theorem invariant_back {P : Machine → Prop} (hstep : ∀ m, P (m.step program config) → P m)
    {m m' : Machine} (h : Reaches program config m m') (hm' : P m') : P m := by
  induction h with
  | refl => exact hm'
  | tail _ hlast ih => exact ih (hstep _ (hlast ▸ hm'))

theorem iterate (n : Nat) (m : Machine) :
    Reaches program config m ((Machine.step program config)^[n] m) := by
  induction n generalizing m with
  | zero => exact refl m
  | succ n ih =>
    rw [Function.iterate_succ_apply]
    exact of_step (ih _)

end Reaches

/-! ## Results -/

theorem result?_eq_ok_iff {m : Machine} {v : Term} :
    m.result? = some (.ok v) ↔ m.control = .give v ∧ m.frames = [] := by
  obtain ⟨control, frames, calls, steps, signal, events⟩ := m
  cases control <;> cases frames <;> simp [result?]

theorem result?_eq_error_iff {m : Machine} {f : Failure} :
    m.result? = some (.error f) ↔ m.control = .abandon f ∧ m.frames = [] := by
  obtain ⟨control, frames, calls, steps, signal, events⟩ := m
  cases control <;> cases frames <;> simp [result?]

/-- A machine with a result does not change any more. -/
theorem step_of_result {m : Machine} {r : Except Failure Term} (h : m.result? = some r) :
    m.step program config = m := by
  obtain ⟨control, frames, calls, steps, signal, events⟩ := m
  cases control with
  | reduce t => simp [result?] at h
  | give value =>
    cases frames with
    | nil => rfl
    | cons frame frames => simp [result?] at h
  | abandon f =>
    cases frames with
    | nil => rfl
    | cons frame frames => simp [result?] at h

/-- A machine with a result reaches itself only. -/
theorem Reaches.eq_of_result {m m' : Machine} {r : Except Failure Term}
    (h : Reaches program config m m') (hr : m.result? = some r) : m' = m := by
  refine h.invariant (P := fun x => x = m) ?_ rfl
  rintro x rfl
  exact step_of_result hr

/-- Two machines with a result that are reached from the same one are the same. -/
theorem Reaches.result_unique {m m₁ m₂ : Machine} {r₁ r₂ : Except Failure Term}
    (h₁ : Reaches program config m m₁) (hr₁ : m₁.result? = some r₁)
    (h₂ : Reaches program config m m₂) (hr₂ : m₂.result? = some r₂) : m₁ = m₂ := by
  induction h₁ using Relation.ReflTransGen.head_induction_on with
  | refl => exact (h₂.eq_of_result hr₁).symm
  | @head m next hnext _ ih =>
    apply ih
    rcases Relation.ReflTransGen.cases_head h₂ with heq | ⟨other, hother, hrest⟩
    · -- The second run has ended already, so the step changes nothing.
      rw [← hnext, heq, step_of_result hr₂]
      exact refl m₂
    · rw [← hnext, hother]
      exact hrest

/-- The calls entered are never taken back. -/
theorem steps_le_step (m : Machine) : m.steps ≤ (m.step program config).steps := by
  cases h : m.result? with
  | some r => exact (congrArg Machine.steps (step_of_result h)).ge
  | none =>
    rcases step_lt program config m h with hlt | ⟨heq, -⟩
    · exact hlt.le
    · exact heq.ge

theorem Reaches.steps_le {m m' : Machine} (h : Reaches program config m m') :
    m.steps ≤ m'.steps :=
  h.invariant (P := fun x => m.steps ≤ x.steps) (fun x hx => hx.trans (steps_le_step x)) le_rfl

/-! ## Runs with a limit -/

theorem run_of_result {m : Machine} {r : Except Failure Term} (limit : Nat)
    (h : m.result? = some r) : m.run program config limit = (some r, m) := by
  unfold run
  split
  · rename_i hr
    rw [h] at hr
    cases hr
    rfl
  · rename_i hr
    rw [h] at hr
    cases hr

theorem run_of_step {m : Machine} {limit : Nat} (h : m.result? = none)
    (hle : (m.step program config).steps ≤ limit) :
    m.run program config limit = (m.step program config).run program config limit := by
  conv_lhs => unfold run
  split
  · rename_i hr
    rw [h] at hr
    cases hr
  · exact if_pos hle

theorem run_of_exceeded {m : Machine} {limit : Nat} (h : m.result? = none)
    (hgt : ¬ (m.step program config).steps ≤ limit) :
    m.run program config limit = (none, m) := by
  unfold run
  split
  · rename_i hr
    rw [h] at hr
    cases hr
  · exact if_neg hgt

/-- A result that can be reached is what the run comes to, if the limit allows for its calls. -/
theorem run_of_reaches {m m' : Machine} {r : Except Failure Term} {limit : Nat}
    (h : Reaches program config m m') (hr : m'.result? = some r) (hle : m'.steps ≤ limit) :
    m.run program config limit = (some r, m') := by
  induction h using Relation.ReflTransGen.head_induction_on with
  | refl => exact run_of_result limit hr
  | @head m next hnext hrest ih =>
    cases hm : m.result? with
    | some r₀ =>
      -- A machine with a result only reaches itself, so this step may be left out.
      rw [step_of_result hm] at hnext
      rw [hnext]
      exact ih
    | none =>
      have hsteps : (m.step program config).steps ≤ limit := by
        rw [hnext]
        exact (Reaches.steps_le hrest).trans hle
      rw [run_of_step hm hsteps, hnext]
      exact ih

/-- Where a run stops is reached from where it began; a result is the result of that machine, and
    unless the run began there, its calls are within the limit. -/
theorem run_reaches (program : Program) (config : Config) (limit : Nat) (m : Machine) :
    Reaches program config m (m.run program config limit).2 ∧
      (∀ r, (m.run program config limit).1 = some r →
        (m.run program config limit).2.result? = some r) ∧
      (m.run program config limit).2.steps ≤ max limit m.steps := by
  induction m using run.induct program config limit with
  | case1 m r hr =>
    rw [run_of_result limit hr]
    refine ⟨.refl m, ?_, le_max_right _ _⟩
    rintro r' ⟨⟩
    exact hr
  | case2 m hr next hle ih =>
    rw [run_of_step hr hle]
    obtain ⟨hreach, hresult, hsteps⟩ := ih
    refine ⟨hreach.of_step, hresult, hsteps.trans ?_⟩
    rw [max_eq_left hle]
    exact le_max_left _ _
  | case3 m hr next hgt =>
    -- The next call is one too many: the run is given up where it stands.
    rw [run_of_exceeded hr hgt]
    refine ⟨.refl m, ?_, le_max_right _ _⟩
    rintro r' ⟨⟩

end Machine

/-! ## Evaluations -/

namespace Evaluator

/-- The evaluation that a machine with a result gives an account of. -/
def settled (e : Evaluator) (m : Machine) (r : Except Failure Term) : Evaluation :=
  { outcome :=
      match r with
      | .ok t => .value t
      | .error f => .failure f
    evaluator := { e with steps := m.steps, calls := m.calls, signal := m.signal }
    events := m.events.reverse }

/-- A result that can be reached within the horizon settles the evaluation. -/
theorem finish_of_reaches {e : Evaluator} {m m' : Machine} {r : Except Failure Term}
    (h : Machine.Reaches e.program e.config m m') (hr : m'.result? = some r)
    (hle : m'.steps ≤ e.config.horizon) : e.finish m = e.settled m' r := by
  unfold finish
  rw [Machine.run_of_reaches h hr hle]
  cases r <;> rfl

/-- An evaluation can be settled by taking enough steps. -/
theorem finish_of_iterate {e : Evaluator} {m : Machine} {r : Except Failure Term} (n : Nat)
    (hr : ((Machine.step e.program e.config)^[n] m).result? = some r)
    (hle : ((Machine.step e.program e.config)^[n] m).steps ≤ e.config.horizon) :
    e.finish m = e.settled ((Machine.step e.program e.config)^[n] m) r :=
  finish_of_reaches (.iterate n m) hr hle

/-- A run with a result makes the evaluation the account of that result. -/
theorem finish_of_run {e : Evaluator} {m : Machine} {r : Except Failure Term}
    (h : (m.run e.program e.config e.config.horizon).1 = some r) :
    ∃ m', Machine.Reaches e.program e.config m m' ∧ m'.result? = some r ∧
      m'.steps ≤ max e.config.horizon m.steps ∧ e.finish m = e.settled m' r := by
  obtain ⟨hreach, hresult, hsteps⟩ := Machine.run_reaches e.program e.config e.config.horizon m
  rcases hrun : m.run e.program e.config e.config.horizon with ⟨result, m'⟩
  rw [hrun] at h hreach hresult hsteps
  cases h
  refine ⟨m', hreach, hresult r rfl, hsteps, ?_⟩
  unfold finish
  rw [hrun]
  cases r <;> rfl

/-- An evaluation is given up, or it is the account of a result that was reached. -/
theorem finish_cases (e : Evaluator) (m : Machine) :
    (e.finish m).outcome = .unfinished ∨
      ∃ m' r, Machine.Reaches e.program e.config m m' ∧ m'.result? = some r ∧
        m'.steps ≤ max e.config.horizon m.steps ∧ e.finish m = e.settled m' r := by
  rcases hrun : m.run e.program e.config e.config.horizon with ⟨result, m'⟩
  cases result with
  | none =>
    left
    unfold finish
    rw [hrun]
  | some r =>
    right
    obtain ⟨m', hm'⟩ := finish_of_run (congrArg Prod.fst hrun)
    exact ⟨m', r, hm'⟩

end Evaluator

end Clausal
