/-
  Clausal.Machine.Crash

  Steps that cannot be made. The machine goes on as if every term had a text and every value could be
  put in its place; but where a term is missing, there may be no text to report and nothing to put
  the value in. A step that needs one of these crashes, and the evaluation is over without a result.
  `Machine.crashes` says which steps these are: a call is entered whose arguments are written down,
  a head is reported that is no name, or a body is given back with its variables replaced.

  `Machine.run?` is the run that heeds it.
-/
import Clausal.Machine.Run

namespace Clausal

/-- Whether the last pending pattern matches, and the body cannot take the values. -/
def Attempt.crashes (a : Attempt) (value : Term) : Bool :=
  match a.accept? value with
  | none => false
  | some bound =>
    match a.patterns, a.args with
    | _ :: _, _ :: _ => false
    | _, _ => (Bindings.fill? bound a.body).isNone

namespace Machine

/-- Whether a call is entered with an argument that cannot be written down. -/
def callCrashes (config : Config) (m : Machine) (args : List Term) : Bool :=
  (m.refusal? config).isNone && args.any (·.text?.isNone)

/-- Whether the next step crashes. -/
def crashes (program : Program) (config : Config) (m : Machine) : Bool :=
  match m.control, m.frames with
  | .give value, .head elems :: _ =>
    match value with
    | .ident name => !program.isValueHead name && m.callCrashes config elems.tail
    | head => head.text?.isNone
  | .give value, .call _ _ attempt _ _ :: _ => attempt.crashes value
  | _, _ => false

/-- Runs the machine as `run` does, unless one of its steps crashes. -/
def run? (program : Program) (config : Config) (limit : Nat) (m : Machine) :
    Option (Option (Except Failure Term) × Machine) :=
  match _pending : m.result? with
  | some result => some (some result, m)
  | none =>
    if m.crashes program config then none
    else
      let next := m.step program config
      if next.steps ≤ limit then run? program config limit next else some (none, m)
termination_by (limit - m.steps, m.openCalls, m.work)
decreasing_by exact step_decreases program config _pending ‹_›

end Machine

end Clausal
