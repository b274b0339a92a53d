/-
  Clausal.Evaluator

  Evaluators: a program, its settings, and what carries over from one evaluation to the next, the
  number of calls made so far, the calls still open and the state of the interrupt. `reduce` brings
  a term to its outermost shape, `call` makes a single call and does not reduce the body it gets,
  `interpret` runs the program from its entry.
-/
import Clausal.Machine.Run

namespace Clausal

/-- What an evaluation came to. -/
inductive Outcome where
  | value (t : Term)
  | failure (f : Failure)
  | unfinished
  deriving DecidableEq, Repr

/-- A program being evaluated. -/
structure Evaluator where
  program : Program
  config : Config
  steps : Nat
  calls : CallStack
  signal : Signal

/-- An evaluation: what it came to, the evaluator after it, and what happened, in order. -/
structure Evaluation where
  outcome : Outcome
  evaluator : Evaluator
  events : List (Event Failure)

namespace Evaluator

/-- An evaluator that has made no call yet. -/
def new (program : Program) (config : Config) (signal : Signal) : Evaluator :=
  ⟨program, config, 0, .empty, signal⟩

/-- A machine with nothing behind it. -/
def machine (e : Evaluator) (control : Control) : Machine :=
  ⟨control, [], e.calls, e.steps, e.signal, []⟩

/-- Runs a machine to its result. -/
def finish (e : Evaluator) (m : Machine) : Evaluation :=
  let (result, m) := m.run e.program e.config e.config.horizon
  { outcome :=
      match result with
      | some (.ok t) => .value t
      | some (.error f) => .failure f
      | none => .unfinished
    evaluator := { e with steps := m.steps, calls := m.calls, signal := m.signal }
    events := m.events.reverse }

/-- Reduces a term. -/
def reduce (e : Evaluator) (t : Term) : Evaluation := e.finish (e.machine (.reduce t))

/-- Calls a function: the body of the first clause that matches, with the values of its
    variables put in. -/
def call (e : Evaluator) (name : String) (args : List Term) : Evaluation :=
  e.finish ((e.machine (.reduce .hole)).call e.program e.config name args false [])

end Evaluator

/-! ## Running a program -/

/-- What is wrong with the signature of the entry function. -/
inductive EntryFault where
  | undeclared (entry : String)
  | notArrow (entry unit : String) (found : Term)
  | wrongArity (entry unit : String) (found : Term)
  | wrongResult (entry unit : String) (found : Term)
  deriving Repr

def EntryFault.message : EntryFault → String
  | .undeclared entry => s!"#0 <{entry}> is not declared: " ++ Cause.invalidEntry.text
  | .notArrow entry unit found =>
    s!"#1 <{entry}> has to have type t -> {unit}, but " ++ found.shown ++ " found: "
      ++ Cause.invalidEntry.text
  | .wrongArity entry unit found =>
    s!"#2 <{entry}> has to have type t -> {unit}, but " ++ found.shown ++ " found: "
      ++ Cause.invalidEntry.text
  | .wrongResult entry unit found =>
    s!"#3 <{entry}> has to return {unit}, but " ++ found.shown ++ " found: "
      ++ Cause.invalidEntry.text

/-- Looks at the signature of the entry function: one arrow, to the unit type. -/
def Program.entryFault? (p : Program) (config : Config) : Option EntryFault :=
  let entry := config.entryName
  let unit := config.unitName
  match p.bindings.get? entry with
  | none => some (.undeclared entry)
  | some (.arrow elems) =>
    match elems with
    | [_, result] =>
      if result = .ident unit then none else some (.wrongResult entry unit result)
    | _ => some (.wrongArity entry unit (.arrow elems))
  | some found => some (.notArrow entry unit found)

/-- What running a program came to. -/
inductive Verdict where
  | refused (fault : EntryFault)
  | value (t : Term)
  | failure (f : Failure)
  | unfinished
  deriving Repr

/-- A program that was run: what it came to, the calls counted when it ended, the evaluator after
    it, and what happened, in order. -/
structure Interpretation where
  verdict : Verdict
  steps : Nat
  evaluator : Evaluator
  events : List (Event Failure)

namespace Evaluator

/-- Reduces a term, and what it came to again, until an identifier or the same term comes out. -/
def interpretFrom : Nat → Evaluator → Term → Interpretation
  | 0, e, _ => ⟨.unfinished, e.steps, e, []⟩
  | rounds + 1, e, t =>
    let evaluation := e.reduce t
    let after := evaluation.evaluator
    match evaluation.outcome with
    | .failure f => ⟨.failure f, after.steps, after, evaluation.events⟩
    | .unfinished => ⟨.unfinished, after.steps, after, evaluation.events⟩
    | .value v =>
      if v.isIdent || v = t then ⟨.value v, after.steps, after, evaluation.events⟩
      else
        let rest := interpretFrom rounds after v
        { rest with events := evaluation.events ++ rest.events }

/-- Runs the program: applies its entry function to the seed, provided its signature fits. What
    a reduction gives does not reduce any further, so two rounds are enough for any program. -/
def interpret (e : Evaluator) : Interpretation :=
  match e.program.entryFault? e.config with
  | some fault => ⟨.refused fault, 0, e, []⟩
  | none =>
    interpretFrom (e.config.patience + 2) e (.app [.ident e.config.entryName, e.config.seedTerm])

end Evaluator

end Clausal
