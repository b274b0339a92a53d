/-
  Clausal.Machine.Failure

  How an evaluation fails: the name it failed at, the cause, and the calls that were open,
  the outermost first.
-/
import Clausal.Cause
import Clausal.Term.Render

namespace Clausal

/-- An open call as it is reported. -/
structure Site where
  name : String
  args : List String
  deriving DecidableEq, Repr

def Site.describe (s : Site) : String :=
  if s.args.isEmpty then s.name else s.name ++ " " ++ joinWith ", " s.args

/-- A failure with the calls that were open when it happened. -/
structure EvalError where
  name : String
  stack : List Site
  cause : Cause
  deriving DecidableEq, Repr

namespace EvalError

def message (e : EvalError) : String := e.name ++ ": " ++ e.cause.text

/-- The lines of a stack whose outermost call is indented by `n` blanks. -/
def traceLines : Nat → List Site → List String
  | _, [] => []
  | n, s :: rest => (indent n ++ s.describe ++ "\n") :: traceLines (n + 1) rest

/-- The open calls, one to a line, each one blank further in than the one that made it. -/
def trace (e : EvalError) : String := String.join (traceLines 1 e.stack)

end EvalError

/-- Why a term has no value: there is no term, or its evaluation failed. -/
inductive Failure where
  | absent
  | failed (e : EvalError)
  deriving DecidableEq, Repr

namespace Failure

/-- The cause of a failure. A missing term counts as a head that is no identifier. -/
def cause : Failure → Cause
  | .absent => .malformedHead
  | .failed e => e.cause

def message : Failure → String
  | .absent => "nil term: " ++ Cause.malformedHead.text
  | .failed e => e.message

end Failure

end Clausal
