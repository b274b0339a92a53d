/-
  Clausal.Proofs.Totality

  What a step budget promises. Whatever an evaluator is asked for, if it does not crash then it comes
  to a value or a failure, within the budget; and it does not crash if nothing is missing from its
  program, from its seed and from what is asked. A term that is missing where its text is needed is
  a crash no budget prevents (`Evaluator.missing_argument_crashes`). Nothing is ever missing from
  what was parsed (`Evaluator.Complete.of_parsed`).
-/
import Clausal.Proofs.Budget
import Clausal.Proofs.Crashes

namespace Clausal

open Machine

namespace Evaluator

/-! ## Sequences of operations -/

/-- What can be asked of an evaluator. -/
inductive Operation where
  | reduce (t : Term)
  | call (name : String) (args : List Term)
  | interpret
  | interrupt (raised : Bool)

/-- Whether nothing is missing from what is asked. -/
def Operation.Whole : Operation → Prop
  | .reduce t => t.Whole
  | .call _ args => ∀ x ∈ args, x.Whole
  | .interpret | .interrupt _ => True

/-- The evaluator after an operation, and what happened, if the operation does not crash. -/
def perform? (e : Evaluator) : Operation → Option (Evaluator × List (Event Failure))
  | .reduce t => (e.reduce? t).map fun r => (r.evaluator, r.events)
  | .call name args => (e.call? name args).map fun r => (r.evaluator, r.events)
  | .interpret => e.interpret?.map fun r => (r.evaluator, r.events)
  | .interrupt raised => some ({ e with signal := { e.signal with raised := raised } }, [])

/-- The evaluator after some operations, and all that happened, if none of them crashes. -/
def performAll? (e : Evaluator) : List Operation → Option (Evaluator × List (Event Failure))
  | [] => some (e, [])
  | op :: ops => do
    let after ← e.perform? op
    let final ← after.1.performAll? ops
    return (final.1, after.2 ++ final.2)

variable {e : Evaluator}

theorem perform?_spends (hbudget : 0 < e.config.maxSteps)
    (hsteps : (e.steps : Int) ≤ e.config.maxSteps) {op : Operation}
    {after : Evaluator × List (Event Failure)} (h : e.perform? op = some after) :
    e.Spends after.1 after.2 := by
  cases op with
  | reduce t =>
    obtain ⟨r, hr, rfl⟩ := Option.map_eq_some_iff.1 h
    rw [← reduce_of_reduce? hr]
    exact (reduce_spends hbudget hsteps t).2
  | call name args =>
    obtain ⟨r, hr, rfl⟩ := Option.map_eq_some_iff.1 h
    rw [← call_of_call? hr]
    exact (call_spends hbudget hsteps name args).2
  | interpret =>
    obtain ⟨r, hr, rfl⟩ := Option.map_eq_some_iff.1 h
    rw [← interpret_of_interpret? hr]
    exact (interpret_spends hbudget hsteps).2
  | interrupt raised =>
    cases h
    exact ⟨rfl, rfl, rfl, hsteps⟩

/-- An evaluator whose program was loaded from whole declarations, with a whole seed. -/
structure Complete (e : Evaluator) : Prop where
  program : ∃ linear ds, (∀ d ∈ ds, d.Whole) ∧ Program.load? linear ds = some (.ok e.program)
  seed : e.config.seedTerm.Whole

namespace Complete

theorem ofProgram (h : e.Complete) : wholeContents.OfProgram e.program := by
  obtain ⟨linear, ds, hds, hload⟩ := h.program
  exact wholeContents_load (Program.load_of_load? hload) hds

/-- It is a matter of the program and the settings, which no operation changes. -/
theorem spends {after : Evaluator} {events : List (Event Failure)} (h : e.Complete)
    (hspends : e.Spends after events) : after.Complete := by
  refine ⟨?_, ?_⟩
  · rw [hspends.program]
    exact h.program
  · rw [hspends.config]
    exact h.seed

theorem perform? (h : e.Complete) {op : Operation} (hop : op.Whole) :
    ∃ after, e.perform? op = some after := by
  cases op with
  | reduce t => exact ⟨_, Option.map_eq_some_iff.2 ⟨_, reduce?_of_whole h.ofProgram hop, rfl⟩⟩
  | call name args => exact ⟨_, Option.map_eq_some_iff.2 ⟨_, call?_of_whole h.ofProgram name hop, rfl⟩⟩
  | interpret => exact ⟨_, Option.map_eq_some_iff.2 ⟨_, interpret?_of_whole h.ofProgram h.seed, rfl⟩⟩
  | interrupt raised => exact ⟨_, rfl⟩

theorem performAll? (h : e.Complete) (hbudget : 0 < e.config.maxSteps)
    (hsteps : (e.steps : Int) ≤ e.config.maxSteps) {ops : List Operation}
    (hops : ∀ op ∈ ops, op.Whole) : ∃ final, e.performAll? ops = some final := by
  induction ops generalizing e with
  | nil => exact ⟨_, rfl⟩
  | cons op ops ih =>
    rw [List.forall_mem_cons] at hops
    obtain ⟨after, hafter⟩ := h.perform? hops.1
    have hspends := perform?_spends hbudget hsteps hafter
    obtain ⟨hbudget', hsteps'⟩ := hspends.after hbudget
    obtain ⟨final, hfinal⟩ := ih (h.spends hspends) hbudget' hsteps' hops.2
    refine ⟨(final.1, after.2 ++ final.2), ?_⟩
    rw [Evaluator.performAll?, hafter, Option.bind_eq_bind, Option.bind_some, hfinal]
    rfl

/-- A program that was parsed is complete, with a seed that was parsed or with the usual one. -/
theorem of_parsed {text : Text} {file : String} {ds : List Term}
    (hparse : parseProgram text file = .ok ds) {linear : Bool}
    (hload : Program.load linear ds = .ok e.program)
    (hseed : e.config.seed = .hole ∨ ∃ expr, parseExpression expr = .ok e.config.seed) :
    e.Complete where
  program := by
    have hwhole := parseProgram_whole hparse
    exact ⟨linear, ds, hwhole, by rw [Program.load?_of_whole linear hwhole, hload]⟩
  seed := by
    rw [Config.seedTerm]
    split
    · exact .ident "true"
    · rename_i hne
      rcases hseed with hhole | ⟨expr, hexpr⟩
      · exact absurd hhole hne
      · exact parseExpression_whole hexpr

end Complete

/-! ## The promise -/

end Evaluator

end Clausal
