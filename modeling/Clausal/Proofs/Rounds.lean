/-
  Clausal.Proofs.Rounds

  Running a program reduces at most twice. What a reduction gives evaluates to itself, so a
  second reduction gives the same term again if it gives any (`Evaluator.reduce_again`), and then
  the run is over. `Evaluator.interpretFrom_eq` says what a run comes to in terms of its last
  reduction, `Evaluator.interpretFrom_cases` which reduction that is; no other proof has to look at
  the rounds.
-/
import Clausal.Proofs.Adequacy

namespace Clausal

/-- A run of the program that ends with an evaluation. -/
def Evaluation.interpretation (evaluation : Evaluation) : Interpretation where
  verdict :=
    match evaluation.outcome with
    | .value v => .value v
    | .failure f => .failure f
    | .unfinished => .unfinished
  steps := evaluation.evaluator.steps
  evaluator := evaluation.evaluator
  events := evaluation.events

/-- A run of the program ends exactly if its last reduction does. -/
theorem Evaluation.interpretation_unfinished {evaluation : Evaluation} :
    evaluation.interpretation.verdict = .unfinished ↔ evaluation.outcome = .unfinished := by
  unfold Evaluation.interpretation
  cases evaluation.outcome <;> simp

/-- It comes to a value exactly if its last reduction does, and to the same. -/
theorem Evaluation.interpretation_value {evaluation : Evaluation} {v : Term} :
    evaluation.interpretation.verdict = .value v ↔ evaluation.outcome = .value v := by
  unfold Evaluation.interpretation
  cases evaluation.outcome <;> simp

/-- An evaluation with something that happened before it. -/
def Evaluation.preceded (evaluation : Evaluation) (events : List (Event Failure)) : Evaluation :=
  { evaluation with events := events ++ evaluation.events }

namespace Evaluator

/-- Reducing a term again that came of a reduction gives the same term, if it gives one. -/
theorem reduce_again {e e' : Evaluator} {t v w : Term} (hprogram : e'.program = e.program)
    (hv : (e.reduce t).outcome = .value v) (hw : (e'.reduce v).outcome = .value w) : w = v := by
  have hself := (evaluates_of_reduce hv).self
  have hagain := evaluates_of_reduce hw
  rw [hprogram] at hagain
  exact hagain.unique hself

/-- A round that gives no new term is the last. -/
theorem interpretFrom_last {e : Evaluator} {t : Term}
    (h : ∀ v, (e.reduce t).outcome = .value v → v.isIdent = true ∨ v = t) (rounds : Nat) :
    interpretFrom (rounds + 1) e t = (e.reduce t).interpretation := by
  rw [interpretFrom, Evaluation.interpretation]
  cases hv : (e.reduce t).outcome with
  | unfinished => rfl
  | failure f => rfl
  | value v =>
    have hstop : (v.isIdent || decide (v = t)) = true := by simpa using h v hv
    simp only [if_pos hstop]

/-- A round that gives a new term is followed by another. -/
theorem interpretFrom_next {e : Evaluator} {t v : Term} (hv : (e.reduce t).outcome = .value v)
    (hident : ¬ v.isIdent = true) (hne : v ≠ t) (rounds : Nat) :
    interpretFrom (rounds + 1) e t =
      { interpretFrom rounds (e.reduce t).evaluator v with
        events := (e.reduce t).events
          ++ (interpretFrom rounds (e.reduce t).evaluator v).events } := by
  have hgo : ¬ (v.isIdent || decide (v = t)) = true := by simp [hident, hne]
  rw [interpretFrom]
  simp only [hv, if_neg hgo]

/-- Two rounds are enough, however many there may be: a run ends with the reduction of the term it
    begins with, or with the reduction of what came of that. -/
theorem interpretFrom_cases (e : Evaluator) (t : Term) :
    (∀ rounds, interpretFrom (rounds + 2) e t = (e.reduce t).interpretation) ∨
      ∃ v, (e.reduce t).outcome = .value v ∧ ∀ rounds,
        interpretFrom (rounds + 2) e t =
          (((e.reduce t).evaluator.reduce v).preceded (e.reduce t).events).interpretation := by
  by_cases h : ∀ v, (e.reduce t).outcome = .value v → v.isIdent = true ∨ v = t
  · exact .inl fun rounds => interpretFrom_last h (rounds + 1)
  · right
    obtain ⟨v, hv⟩ := not_forall.1 h
    obtain ⟨hvalue, hnew⟩ := Classical.not_imp.1 hv
    obtain ⟨hident, hne⟩ := not_or.1 hnew
    refine ⟨v, hvalue, fun rounds => ?_⟩
    -- The second round cannot give anything new, so it is the last.
    have hprogram : (e.reduce t).evaluator.program = e.program := rfl
    have hlast : ∀ w, ((e.reduce t).evaluator.reduce v).outcome = .value w →
        w.isIdent = true ∨ w = v :=
      fun w hw => .inr (reduce_again hprogram hvalue hw)
    rw [interpretFrom_next hvalue hident hne, interpretFrom_last hlast rounds]
    rfl

theorem interpretFrom_eq (e : Evaluator) (t : Term) (rounds : Nat) :
    interpretFrom (rounds + 2) e t = (e.reduce t).interpretation ∨
      ∃ v, (e.reduce t).outcome = .value v ∧
        interpretFrom (rounds + 2) e t =
          (((e.reduce t).evaluator.reduce v).preceded (e.reduce t).events).interpretation := by
  rcases interpretFrom_cases e t with h | ⟨v, hv, h⟩
  · exact .inl (h rounds)
  · exact .inr ⟨v, hv, h rounds⟩

end Evaluator

end Clausal
