/-
  Clausal.Config

  What an evaluation is allowed to do and where it starts.
-/
import Clausal.Term.Basic

namespace Clausal

/-- The settings of an evaluation. A budget that is not positive is no budget. -/
structure Config where
  /-- How many calls one evaluator may make. -/
  maxSteps : Int
  /-- How many calls may be open at once. -/
  maxDepth : Int
  /-- Whether a variable may stand only once among the parameters of a clause. -/
  linear : Bool
  /-- The function that is run; `main` when empty. -/
  entry : String
  /-- The type that the function has to return; `'unit` when empty. -/
  unit : String
  /-- What the function is applied to; `true` when missing. -/
  seed : Term
  /-- Whether an interrupt is heeded. -/
  interruptible : Bool
  /-- How many calls an evaluator without a step budget makes before it is given up as
      unfinished. -/
  patience : Nat
  deriving Repr

namespace Config

/-- No budgets, nothing set. -/
def bare : Config := ⟨0, 0, false, "", "", .hole, false, 0x1000000000000000⟩

/-- The usual settings: a depth of 65536, `main` applied to `true`. -/
def standard : Config :=
  { bare with
    maxDepth := 65536, entry := "main", unit := "'unit", seed := .ident "true"
    interruptible := true }

/-- The name of the function that is run. -/
def entryName (c : Config) : String := if c.entry.isEmpty then "main" else c.entry

/-- The name of the type that the function has to return. -/
def unitName (c : Config) : String := if c.unit.isEmpty then "'unit" else c.unit

def seedTerm (c : Config) : Term :=
  match c.seed with
  | .hole => .ident "true"
  | t => t

/-- The step budget of a run whose events are kept, unless another one is set. -/
def recordedSteps : Int := 100000

/-- The settings of a run whose events are kept. -/
def bounded (c : Config) : Config :=
  if c.maxSteps = 0 then { c with maxSteps := recordedSteps } else c

/-- The number of calls past which an evaluator is certain not to go, or is given up. -/
def horizon (c : Config) : Nat := if 0 < c.maxSteps then c.maxSteps.toNat else c.patience

end Config

end Clausal
