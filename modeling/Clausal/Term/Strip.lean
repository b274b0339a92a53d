/-
  Clausal.Term.Strip

  Terms without their parentheses. Two ways to write the same term are equal once their
  groups are taken off.
-/
import Clausal.Term.Basic

namespace Clausal.Term

mutual

/-- The term with every group replaced by what it holds. -/
def strip : Term → Term
  | .group t => t.strip
  | .seq k xs => .seq k (stripAll xs)
  | .rel k a b => .rel k a.strip b.strip
  | .builtin a b => .builtin a.strip b.strip
  | .ident n => .ident n
  | .marker => .marker
  | .builtinMarker => .builtinMarker
  | .hole => .hole

def stripAll : List Term → List Term
  | [] => []
  | t :: ts => t.strip :: stripAll ts

end

@[simp] theorem stripAll_eq_map (ts : List Term) : stripAll ts = ts.map strip := by
  induction ts with
  | nil => rfl
  | cons t ts ih => simp [stripAll, ih]

end Clausal.Term
