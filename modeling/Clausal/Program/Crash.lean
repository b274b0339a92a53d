/-
  Clausal.Program.Crash

  Loading that may crash. Types, constructors and functions go by the texts of terms; where a term is
  missing there may be no text, and then nothing comes of the declarations at all, neither a program
  nor a complaint. `load?` does what `load` does, as long as every name can be written down.
-/
import Clausal.Program.Basic

namespace Clausal.Program

/-- Whether a constructor has a head that cannot be written down. -/
def isHeadless : Term → Bool
  | .app (head :: _) => head.text?.isNone
  | _ => false

/-- Whether a declaration is named by a term that cannot be written down. A type that is refused for
    its own name is not asked for its constructors. -/
def crashes (p : Program) : Term → Bool
  | .entity (head :: rest) =>
    head.text?.isNone ||
      !p.types.contains head.render && (Term.constructors (head :: rest)).any isHeadless
  | .define (.app (head :: _)) _ => head.text?.isNone
  | _ => false

/-- The program with some more declarations. -/
def extend? (linear : Bool) : Program → List Term → Option (Except LoadError Program)
  | p, [] => some (.ok p)
  | p, d :: ds =>
    if p.crashes d then none
    else
      match p.add linear d with
      | .error e => some (.error e)
      | .ok p => p.extend? linear ds

/-- The program that some declarations make. -/
def load? (linear : Bool) (declarations : List Term) : Option (Except LoadError Program) :=
  extend? linear .empty declarations

end Clausal.Program
