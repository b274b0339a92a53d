/-
  Clausal.Cause

  The reasons for which an operation can be refused. Each error type of the library says more
  about one occasion; its cause is what a caller tests for.
-/
namespace Clausal

/-- Why something was refused. -/
inductive Cause where
  | unknownFunction
  | noMatchingClause
  | malformedDeclaration
  | duplicateType
  | duplicateBinding
  | repeatedVariable
  | invalidEntry
  | malformedHead
  | strayMarker
  | stepBudget
  | depthBudget
  | interrupted
  | emptySequence
  | notSequence
  | alreadyDefined
  | notDefined
  | readOnly
  | runNotFound
  | runRecorded
  deriving DecidableEq, Repr, Inhabited

def Cause.text : Cause → String
  | .unknownFunction => "unknown function"
  | .noMatchingClause => "no matching clause"
  | .malformedDeclaration => "malformed declaration"
  | .duplicateType => "type already declared"
  | .duplicateBinding => "name already bound"
  | .repeatedVariable => "pattern variable repeated"
  | .invalidEntry => "invalid entry signature"
  | .malformedHead => "application head is not an identifier"
  | .strayMarker => "parser marker reached the evaluator"
  | .stepBudget => "step budget exceeded"
  | .depthBudget => "depth budget exceeded"
  | .interrupted => "interrupted"
  | .emptySequence => "empty sequence"
  | .notSequence => "not a curried sequence"
  | .alreadyDefined => "already defined"
  | .notDefined => "not defined"
  | .readOnly => "read only"
  | .runNotFound => "run not found"
  | .runRecorded => "run already recorded"

end Clausal
