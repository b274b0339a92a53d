/-
  Clausal.Machine.Basic

  The state of an evaluation. Terms are reduced until their outermost shape is settled: a
  group is opened, an application with arguments has its head reduced to a name and the call
  to that name made. A call goes through the clauses of its function; for each parameter the
  argument at its place is reduced anew and held against the pattern, and the first pattern
  that does not match ends the attempt at its clause.

  What is still to be done stands on a stack of frames, so an evaluation may nest as deep as
  memory allows. The machine counts its calls and writes down when each is entered and left.
-/
import Clausal.Machine.Calls
import Clausal.Machine.Event
import Clausal.Program.Basic
import Clausal.Program.Bindings

namespace Clausal

/-- A clause whose parameters are being matched: the bindings so far, the pattern that waits
    for a value, the patterns and arguments behind it, and the body. -/
structure Attempt where
  bound : Bindings
  pending : Pattern
  patterns : List Pattern
  args : List Term
  body : Term
  deriving DecidableEq, Repr

/-- What a value is waited for. -/
inductive Frame where
  /-- The head of an application with the given elements. -/
  | head (elems : List Term)
  /-- An argument of a call, for the attempt at one clause; `others` are the clauses behind it.
      With `goOn` the body that the call gives is reduced in its turn. -/
  | call (name : String) (args : List Term) (attempt : Attempt) (others : List Clause)
      (goOn : Bool)
  deriving DecidableEq, Repr

namespace Frame

def isCall : Frame → Bool
  | .head _ => false
  | .call .. => true

end Frame

/-- What the machine is about to do: reduce a term, hand a value to the topmost frame, or give
    up the topmost frame. -/
inductive Control where
  | reduce (t : Term)
  | give (value : Term)
  | abandon (f : Failure)
  deriving DecidableEq, Repr

/-- A pending interrupt. `alarm` counts the calls until it is raised; zero is never. -/
structure Signal where
  raised : Bool
  alarm : Nat
  deriving DecidableEq, Repr

/-- No interrupt in sight. -/
def Signal.quiet : Signal := ⟨false, 0⟩

/-- The signal with the interrupt withdrawn. One that is still to come is not. -/
def Signal.lowered (s : Signal) : Signal := { s with raised := false }

/-- The signal after one more call was entered. -/
def Signal.tick (s : Signal) : Signal :=
  match s.alarm with
  | 0 => s
  | 1 => ⟨true, 0⟩
  | n + 2 => { s with alarm := n + 1 }

/-- The machine. `frames` holds what is still to be done, `calls` the calls that are open,
    `steps` counts the calls that were entered, and `events` holds what happened, the latest
    first. -/
structure Machine where
  control : Control
  frames : List Frame
  calls : CallStack
  steps : Nat
  signal : Signal
  events : List (Event Failure)

namespace Machine

/-- The failure at a name, with the calls that are open. -/
def failure (m : Machine) (name : String) (cause : Cause) : Failure :=
  .failed ⟨name, m.calls.sites, cause⟩

/-- What the machine has come to, once no frame waits any more. -/
def result? (m : Machine) : Option (Except Failure Term) :=
  match m.control, m.frames with
  | .give value, [] => some (.ok value)
  | .abandon f, [] => some (.error f)
  | _, _ => none

end Machine

end Clausal
