/-
  Clausal.Machine.Event

  The trace of an evaluation: an event when a call is entered and one when it is left. The
  depth of a call is the number of calls open at the time, itself included.
-/
import Clausal.Term.Render

namespace Clausal

/-- What happens to a call. `ε` is what a failed call is left with. -/
inductive Event (ε : Type) where
  | enter (depth : Nat) (name : String) (args : List Term)
  | leave (depth : Nat) (name : String) (result : Except ε Term)

namespace Event

variable {ε δ : Type}

/-- The event with another account of the failure. -/
def mapError (f : ε → δ) : Event ε → Event δ
  | .enter depth name args => .enter depth name args
  | .leave depth name result => .leave depth name (result.mapError f)

def isEnter : Event ε → Bool
  | .enter .. => true
  | .leave .. => false

end Event

end Clausal
