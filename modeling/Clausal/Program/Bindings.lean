/-
  Clausal.Program.Bindings

  The values that the variables of a clause were matched with. A variable matched again keeps
  its place and takes the later value. Bindings are put into a body one after the other, so a
  value that mentions a later variable has that variable replaced as well.
-/
import Clausal.Term.Subst

namespace Clausal

/-- Variables with their values, in the order in which they were first bound. -/
abbrev Bindings := List (String × Term)

namespace Bindings

def bind (name : String) (value : Term) : Bindings → Bindings
  | [] => [(name, value)]
  | entry :: rest =>
    if entry.1 = name then (name, value) :: rest else entry :: bind name value rest

/-- Puts every value in the place of its variable, in order. -/
def apply (bound : Bindings) (body : Term) : Term :=
  bound.foldl (fun t entry => Term.subst (.ident entry.1) entry.2 t) body

/-- `apply`, provided that every substitution goes through. -/
def fill? (bound : Bindings) (body : Term) : Option Term :=
  bound.foldlM (fun t entry => Term.subst? (.ident entry.1) entry.2 t) body

end Bindings

end Clausal
