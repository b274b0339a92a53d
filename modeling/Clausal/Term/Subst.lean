/-
  Clausal.Term.Subst

  Looking for a term inside another, and putting a third in its place. Both treat a builtin
  signature as one opaque thing: the signature itself can be found and replaced, nothing
  inside it can. A hole is never replaced.

  A substitution does not always go through: it cannot go into a relation that has a missing side.
  `subst` goes on as if it could, `subst?` tells.
-/
import Clausal.Term.Basic

namespace Clausal.Term

mutual

/-- The term with `repl` at every place where `key` stands. The outermost match wins, and
    what is put in is not searched again. Nothing is renamed on the way. -/
def subst (key repl : Term) : Term → Term
  | .hole => .hole
  | .ident n => if .ident n = key then repl else .ident n
  | .group t => if .group t = key then repl else .group (subst key repl t)
  | .seq k xs => if .seq k xs = key then repl else .seq k (substAll key repl xs)
  | .rel k a b => if .rel k a b = key then repl else .rel k (subst key repl a) (subst key repl b)
  | .builtin a b => if .builtin a b = key then repl else .builtin a b
  | .marker => if .marker = key then repl else .marker
  | .builtinMarker => if .builtinMarker = key then repl else .builtinMarker

def substAll (key repl : Term) : List Term → List Term
  | [] => []
  | t :: ts => subst key repl t :: substAll key repl ts

end

mutual

/-- `subst`, provided that it goes through. -/
def subst? (key repl : Term) : Term → Option Term
  | .hole => some .hole
  | .ident n => some (if .ident n = key then repl else .ident n)
  | .group t => if .group t = key then some repl else (subst? key repl t).map .group
  | .seq k xs => if .seq k xs = key then some repl else (substAll? key repl xs).map (.seq k)
  | .rel k a b =>
    if .rel k a b = key then some repl
    else if a = .hole ∨ b = .hole then none
    else
      match subst? key repl a, subst? key repl b with
      | some a', some b' => some (.rel k a' b')
      | _, _ => none
  | .builtin a b => some (if .builtin a b = key then repl else .builtin a b)
  | .marker => some (if .marker = key then repl else .marker)
  | .builtinMarker => some (if .builtinMarker = key then repl else .builtinMarker)

/-- `subst` in each of some terms, provided that it goes through in all of them. -/
def substAll? (key repl : Term) : List Term → Option (List Term)
  | [] => some []
  | t :: ts =>
    match subst? key repl t, substAll? key repl ts with
    | some t', some ts' => some (t' :: ts')
    | _, _ => none

end

mutual

/-- Whether `key` stands anywhere in a term. -/
def occurs (key : Term) : Term → Bool
  | .group t => .group t = key || occurs key t
  | .seq k xs => .seq k xs = key || occursAny key xs
  | .rel k a b => .rel k a b = key || (occurs key a || occurs key b)
  | .ident n => .ident n = key
  | .builtin a b => .builtin a b = key
  | .marker => .marker = key
  | .builtinMarker => .builtinMarker = key
  | .hole => .hole = key

/-- Whether `key` stands anywhere in one of some terms. -/
def occursAny (key : Term) : List Term → Bool
  | [] => false
  | t :: ts => occurs key t || occursAny key ts

end

@[simp] theorem substAll_eq_map (key repl : Term) (ts : List Term) :
    substAll key repl ts = ts.map (subst key repl) := by
  induction ts with
  | nil => rfl
  | cons t ts ih => simp [substAll, ih]

@[simp] theorem occursAny_eq_any (key : Term) (ts : List Term) :
    occursAny key ts = ts.any (occurs key) := by
  induction ts with
  | nil => rfl
  | cons t ts ih => simp [occursAny, ih]

end Clausal.Term
