/-
  Clausal.Proofs.Budget

  A step budget makes every evaluation end. A call is entered only while the budget is not used
  up, so the count of calls stays within it (`Machine.Moves.steps_le`), and between two calls a
  run can only go on for so long (`Machine.step_lt`). The rounds in which a program is run are
  not counted, but there are at most two of them (`Evaluator.interpretFrom_eq`). What is spent is
  kept track of over one evaluation after the other (`Evaluator.Spends`).
-/
import Clausal.Proofs.Rounds

namespace Clausal

namespace Machine

variable {program : Program} {config : Config}

/-- No move takes the count of calls past the budget. -/
theorem Moves.steps_le {m m' : Machine} (h : Moves program config m m')
    (hbudget : 0 < config.maxSteps) (hm : (m.steps : Int) ≤ config.maxSteps) :
    (m'.steps : Int) ≤ config.maxSteps := by
  -- A call that is not refused finds at least one step left.
  have hroom : m.refusal? config = none → (m.steps : Int) + 1 ≤ config.maxSteps := by
    intro hrefusal
    obtain ⟨-, hsteps, -⟩ := refusal?_eq_none_iff.1 hrefusal
    omega
  cases h with
  | rest => exact hm
  | work _ _ _ => exact hm
  | fault _ _ _ => exact hm
  | enter _ hrefusal _ =>
    rw [steps_proceed]
    exact hroom hrefusal
  | stray _ hrefusal _ => exact hroom hrefusal
  | resume _ _ =>
    rw [steps_proceed]
    exact hm
  | pass _ _ => exact hm
  | unwind _ _ => exact hm

/-- Within a step budget a run has a result. -/
theorem run_ends (program : Program) {m : Machine} (hbudget : 0 < config.maxSteps)
    (hm : (m.steps : Int) ≤ config.maxSteps) :
    ∃ r, (m.run program config config.maxSteps.toNat).1 = some r := by
  -- Along the run itself, whose own termination rests on `step_lt`.
  induction m using run.induct program config config.maxSteps.toNat with
  | case1 m r hr =>
    rw [run_of_result _ hr]
    exact ⟨r, rfl⟩
  | case2 m hr next hle ih =>
    rw [run_of_step hr hle]
    exact ih ((step_moves program config m).steps_le hbudget hm)
  | case3 m hr next hgt =>
    -- A run is given up only past the limit, and the budget is the limit.
    have hle := (step_moves program config m).steps_le hbudget hm
    exact absurd (show (m.step program config).steps ≤ config.maxSteps.toNat by omega) hgt

end Machine

open Machine

namespace Evaluator

/-- Within a step budget an evaluation is the account of a result. -/
theorem finish_ends (e : Evaluator) {m : Machine} (hbudget : 0 < e.config.maxSteps)
    (hm : (m.steps : Int) ≤ e.config.maxSteps) :
    ∃ m' r, Reaches e.program e.config m m' ∧ m'.result? = some r ∧
      (m'.steps : Int) ≤ e.config.maxSteps ∧ e.finish m = e.settled m' r := by
  have hhorizon : e.config.horizon = e.config.maxSteps.toNat := if_pos hbudget
  obtain ⟨r, hrun⟩ := run_ends e.program hbudget hm
  rw [← hhorizon] at hrun
  obtain ⟨m', hreach, hr, hsteps, hfinish⟩ := finish_of_run hrun
  rw [hhorizon] at hsteps
  exact ⟨m', r, hreach, hr, by omega, hfinish⟩

/-- What an operation does to an evaluator with a step budget: the program and the settings stay,
    every call is counted and told of, and the budget is kept. -/
structure Spends (before after : Evaluator) (events : List (Event Failure)) : Prop where
  program : after.program = before.program
  config : after.config = before.config
  counted : before.steps + enters events = after.steps
  kept : (after.steps : Int) ≤ before.config.maxSteps

theorem Spends.trans {e₁ e₂ e₃ : Evaluator} {events events' : List (Event Failure)}
    (h : e₁.Spends e₂ events) (h' : e₂.Spends e₃ events') : e₁.Spends e₃ (events ++ events') := by
  refine ⟨h'.program.trans h.program, h'.config.trans h.config, ?_, h.config ▸ h'.kept⟩
  rw [enters_append, ← h'.counted, ← h.counted]
  omega

/-- What comes after an operation has a step budget again, and keeps it so far. -/
theorem Spends.after {before after : Evaluator} {events : List (Event Failure)}
    (h : before.Spends after events) (hbudget : 0 < before.config.maxSteps) :
    0 < after.config.maxSteps ∧ (after.steps : Int) ≤ after.config.maxSteps := by
  rw [h.config]
  exact ⟨hbudget, h.kept⟩

/-- A machine that has kept the budget so far is run to its result, and keeps it. -/
theorem finish_spends {e : Evaluator} {m : Machine} (hbudget : 0 < e.config.maxSteps)
    (hm : (m.steps : Int) ≤ e.config.maxSteps) (hcounted : e.steps + enters m.events = m.steps) :
    (e.finish m).outcome ≠ .unfinished ∧
      e.Spends (e.finish m).evaluator (e.finish m).events := by
  obtain ⟨m', r, hreach, -, hsteps, hfinish⟩ := e.finish_ends hbudget hm
  rw [hfinish]
  refine ⟨by cases r <;> simp [settled], rfl, rfl, ?_, hsteps⟩
  have henters := hreach.enters
  simp only [settled, enters_reverse]
  omega

theorem reduce_spends {e : Evaluator} (hbudget : 0 < e.config.maxSteps)
    (hsteps : (e.steps : Int) ≤ e.config.maxSteps) (t : Term) :
    (e.reduce t).outcome ≠ .unfinished ∧
      e.Spends (e.reduce t).evaluator (e.reduce t).events :=
  finish_spends hbudget hsteps rfl

/-- A single call begins with one move of a machine that has nothing behind it. -/
theorem call_machine_moves (e : Evaluator) (name : String) (args : List Term) :
    Moves e.program e.config (e.machine (.reduce .hole))
      ((e.machine (.reduce .hole)).call e.program e.config name args false []) :=
  call_moves (by simp [Busy, machine]) name args false rfl

theorem call_spends {e : Evaluator} (hbudget : 0 < e.config.maxSteps)
    (hsteps : (e.steps : Int) ≤ e.config.maxSteps) (name : String) (args : List Term) :
    (e.call name args).outcome ≠ .unfinished ∧
      e.Spends (e.call name args).evaluator (e.call name args).events := by
  have hmoves := e.call_machine_moves name args
  exact finish_spends hbudget (hmoves.steps_le hbudget hsteps) hmoves.enters.symm

theorem interpret_spends {e : Evaluator} (hbudget : 0 < e.config.maxSteps)
    (hsteps : (e.steps : Int) ≤ e.config.maxSteps) :
    e.interpret.verdict ≠ .unfinished ∧
      e.Spends e.interpret.evaluator e.interpret.events := by
  unfold interpret
  split
  · exact ⟨by simp, rfl, rfl, rfl, hsteps⟩
  · generalize Term.app [.ident e.config.entryName, e.config.seedTerm] = t
    obtain ⟨hends, hspends⟩ := reduce_spends hbudget hsteps t
    rcases interpretFrom_eq e t e.config.patience with heq | ⟨v, hv, heq⟩
    · rw [heq]
      exact ⟨mt Evaluation.interpretation_unfinished.1 hends, hspends⟩
    · -- The second round begins where the first one stopped, with the same budget.
      obtain ⟨hbudget', hsteps'⟩ := hspends.after hbudget
      obtain ⟨hends', hspends'⟩ := reduce_spends hbudget' hsteps' v
      rw [heq]
      exact ⟨mt Evaluation.interpretation_unfinished.1 hends', hspends.trans hspends'⟩

end Evaluator

end Clausal
