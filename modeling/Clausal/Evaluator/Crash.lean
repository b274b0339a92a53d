/-
  Clausal.Evaluator.Crash

  Evaluations that may crash. `reduce?`, `call?` and `interpret?` do what `reduce`, `call` and
  `interpret` do, as long as no step crashes, and come to nothing otherwise.
-/
import Clausal.Evaluator
import Clausal.Machine.Crash

namespace Clausal.Evaluator

/-- The evaluation that a machine at the end of its run gives an account of. -/
def account (e : Evaluator) (stopped : Option (Except Failure Term) × Machine) : Evaluation :=
  { outcome :=
      match stopped.1 with
      | some (.ok t) => .value t
      | some (.error f) => .failure f
      | none => .unfinished
    evaluator :=
      { e with
        steps := stopped.2.steps, calls := stopped.2.calls, signal := stopped.2.signal }
    events := stopped.2.events.reverse }

def finish? (e : Evaluator) (m : Machine) : Option Evaluation :=
  (m.run? e.program e.config e.config.horizon).map e.account

def reduce? (e : Evaluator) (t : Term) : Option Evaluation := e.finish? (e.machine (.reduce t))

def call? (e : Evaluator) (name : String) (args : List Term) : Option Evaluation :=
  let m := e.machine (.reduce .hole)
  if m.callCrashes e.config args then none
  else e.finish? (m.call e.program e.config name args false [])

def interpretFrom? : Nat → Evaluator → Term → Option Interpretation
  | 0, e, _ => some ⟨.unfinished, e.steps, e, []⟩
  | rounds + 1, e, t => do
    let evaluation ← e.reduce? t
    let after := evaluation.evaluator
    match evaluation.outcome with
    | .failure f => return ⟨.failure f, after.steps, after, evaluation.events⟩
    | .unfinished => return ⟨.unfinished, after.steps, after, evaluation.events⟩
    | .value v =>
      if v.isIdent || v = t then return ⟨.value v, after.steps, after, evaluation.events⟩
      else
        let rest ← interpretFrom? rounds after v
        return { rest with events := evaluation.events ++ rest.events }

def interpret? (e : Evaluator) : Option Interpretation :=
  match e.program.entryFault? e.config with
  | some fault => some ⟨.refused fault, 0, e, []⟩
  | none =>
    interpretFrom? (e.config.patience + 2) e (.app [.ident e.config.entryName, e.config.seedTerm])

end Clausal.Evaluator
