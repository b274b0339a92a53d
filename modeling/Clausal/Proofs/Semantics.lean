/-
  Clausal.Proofs.Semantics

  What a term evaluates to, said without a machine. `Program.Evaluates` relates a term to its
  value by one rule for each shape of term. The rule for a call evaluates every argument that is
  needed once and picks the clause by looking at the values alone:

    * `Clause.Rejects` and `Clause.Accepts` hold a clause against the values known so far;
    * `Clause.Needs` says which arguments a clause looks at: those up to its first literal that
      does not match, and none if it has more parameters than there are arguments;
    * `Selects` puts these together. The clauses before the chosen one reject, the chosen one
      accepts, and no value is known that none of them needs.

  The values a clause binds are put into its body in the order of `Bindings.gather`.
-/
import Clausal.Program.Basic
import Clausal.Program.Bindings

namespace Clausal

/-! ## Bindings -/

namespace Bindings

/-- The value that a name was bound to last. -/
def latest (name : String) : List (String × Term) → Option Term
  | [] => none
  | (n, v) :: rest => (latest name rest).or (if n = name then some v else none)

/-- Each name that was bound, in the order in which names were first bound, with the value that
    it was bound to last. -/
def gather : List (String × Term) → Bindings
  | [] => []
  | (n, v) :: rest =>
    (n, (latest n rest).getD v) :: (gather rest).filter fun entry => entry.1 ≠ n

end Bindings

/-! ## Patterns and clauses over values -/

namespace Pattern

/-- Whether a pattern lets a value pass. Only a literal asks for anything: the value has to be
    the same term, whatever parentheses it has. -/
def Admits : Pattern → Term → Prop
  | .literal t, value => t = value.strip
  | .wildcard, _ => True
  | .var _, _ => True

instance (p : Pattern) (value : Term) : Decidable (p.Admits value) :=
  match p with
  | .literal t => inferInstanceAs (Decidable (t = value.strip))
  | .wildcard => isTrue trivial
  | .var _ => isTrue trivial

/-- What a pattern binds a value to. -/
def binding? : Pattern → Term → Option (String × Term)
  | .var name, value => some (name, value)
  | _, _ => none

/-- What some patterns bind some values to, from left to right. -/
def bindings (patterns : List Pattern) (values : List Term) : List (String × Term) :=
  (List.zipWith binding? patterns values).filterMap id

end Pattern

namespace Clause

/-- Of `n` arguments a clause looks at the one at position `i`: there are enough of them, and no
    literal before that position has turned its value away. -/
def Needs (c : Clause) (n : Nat) (values : List Term) (i : Nat) : Prop :=
  c.params.length ≤ n ∧ i < c.params.length ∧
    ∀ j < i, ∀ p v, c.params[j]? = some p → values[j]? = some v → p.Admits v

/-- A clause is passed over: it has more parameters than there are arguments, or one of its
    literals is not the value at its position. -/
def Rejects (c : Clause) (n : Nat) (values : List Term) : Prop :=
  n < c.params.length ∨
    ∃ (i : Nat) (p : Pattern) (v : Term),
      c.params[i]? = some p ∧ values[i]? = some v ∧ ¬ p.Admits v

/-- A clause is chosen: there is an argument for every parameter, and each of its literals is the
    value at its position. -/
def Accepts (c : Clause) (n : Nat) (values : List Term) : Prop :=
  c.params.length ≤ n ∧ c.params.length ≤ values.length ∧
    ∀ (i : Nat) (p : Pattern) (v : Term),
      c.params[i]? = some p → values[i]? = some v → p.Admits v

/-- The body of a clause with the values of its variables put in. -/
def instantiate (c : Clause) (values : List Term) : Term :=
  Bindings.apply (Bindings.gather (Pattern.bindings c.params values)) c.body

end Clause

/-- Of some clauses, tried in order on `n` arguments, `c` is the first that matches, `earlier` are
    those before it, and `values` are the values of exactly the arguments that were looked at. -/
structure Selects (earlier : List Clause) (c : Clause) (n : Nat) (values : List Term) : Prop where
  rejected : ∀ d ∈ earlier, d.Rejects n values
  accepted : c.Accepts n values
  needed : ∀ i < values.length, ∃ d ∈ earlier ++ [c], d.Needs n values i

/-! ## Evaluation -/

/-- A term evaluates to a value. -/
inductive Program.Evaluates (program : Program) : Term → Term → Prop where
  | group {t v : Term} : Evaluates program t v → Evaluates program (.group t) v
  | nothing : Evaluates program (.app []) (.app [])
  | single {t v : Term} : Evaluates program t v → Evaluates program (.app [t]) v
  /-- An application whose head is a constructor without clauses is a value. -/
  | constructor {head arg : Term} {args : List Term} {name : String} :
      Evaluates program head (.ident name) → program.isValueHead name = true →
      Evaluates program (.app (head :: arg :: args)) (.app (head :: arg :: args))
  /-- Any other name is called. -/
  | call {head arg v : Term} {args values : List Term} {name : String} {c : Clause}
      {earlier later : List Clause} :
      Evaluates program head (.ident name) → program.isValueHead name = false →
      program.clauses.get? name = some (earlier ++ c :: later) →
      values.length ≤ (arg :: args).length →
      (∀ (i : Nat) (t w : Term), (arg :: args)[i]? = some t → values[i]? = some w →
        Evaluates program t w) →
      Selects earlier c (arg :: args).length values →
      Evaluates program (c.instantiate values) v →
      Evaluates program (.app (head :: arg :: args)) v
  | ident (name : String) : Evaluates program (.ident name) (.ident name)
  | arrow (elems : List Term) : Evaluates program (.arrow elems) (.arrow elems)
  | entity (elems : List Term) : Evaluates program (.entity elems) (.entity elems)
  | rel (kind : Term.Relation) (left right : Term) :
      Evaluates program (.rel kind left right) (.rel kind left right)
  | builtin (left right : Term) : Evaluates program (.builtin left right) (.builtin left right)

/-- A value evaluates to itself. -/
theorem Program.Evaluates.self {program : Program} {t v : Term} (h : program.Evaluates t v) :
    program.Evaluates v v := by
  induction h with
  | group _ ih => exact ih
  | nothing => exact .nothing
  | single _ ih => exact ih
  | constructor hhead hvalue _ => exact .constructor hhead hvalue
  | call _ _ _ _ _ _ _ _ _ ih => exact ih
  | ident name => exact .ident name
  | arrow elems => exact .arrow elems
  | entity elems => exact .entity elems
  | rel kind left right => exact .rel kind left right
  | builtin left right => exact .builtin left right

end Clausal
