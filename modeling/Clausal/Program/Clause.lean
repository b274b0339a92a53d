/-
  Clausal.Program.Clause

  Clauses and their patterns. What a parameter matches is settled once, when its clause is
  compiled: the wildcard matches everything, an identifier with a capital first letter
  matches everything and remembers it, any other term matches itself.
-/
import Clausal.Cause
import Clausal.Term.Render
import Clausal.Term.Strip
import Clausal.Text.Capital

namespace Clausal

/-- A parameter of a clause. -/
inductive Pattern where
  | literal (t : Term)
  | wildcard
  | var (name : String)
  deriving DecidableEq, Repr

namespace Pattern

/-- Whether a name is that of a pattern variable: its first letter is a capital. -/
def isVariableName (name : String) : Bool := name.toList.head?.any Text.isCapital

/-- The pattern that a parameter stands for. Its parentheses mean nothing. -/
def ofTerm (t : Term) : Pattern :=
  match t.strip with
  | .ident name =>
    if name = "_" then .wildcard
    else if isVariableName name then .var name
    else .literal (.ident name)
  | s => .literal s

def term : Pattern → Term
  | .literal t => t
  | .wildcard => .ident "_"
  | .var name => .ident name

def boundName? : Pattern → Option String
  | .var name => some name
  | _ => none

end Pattern

/-- Why a declaration is refused. -/
inductive LoadError where
  | notDeclaration (t : Term)
  | unnamedType
  | clauseHead (left right : Term)
  | signatureName (left right : Term)
  | duplicateType (name : String)
  | duplicateBinding (name : String)
  | repeatedVariable (function name : String)
  deriving Repr

namespace LoadError

/-- The name under which the shape of a term is reported. -/
def shapeName : Term → String
  | .ident _ => "term.Identifier"
  | .group _ => "term.Group"
  | .seq .application _ => "term.Application"
  | .seq .arrow _ => "term.Arrow"
  | .seq .entity _ => "term.Entity"
  | .rel .typing _ _ => "term.IsA"
  | .rel .equation _ _ => "term.Equation"
  | .rel .clause _ _ => "term.FuncDef"
  | .builtin _ _ => "term.Builtin"
  | .marker => "term.Marker"
  | .builtinMarker => "term.BuiltinMarker"
  | .hole => "<nil>"

def cause : LoadError → Cause
  | .notDeclaration _ => .malformedDeclaration
  | .unnamedType => .malformedDeclaration
  | .clauseHead _ _ => .malformedDeclaration
  | .signatureName _ _ => .malformedDeclaration
  | .duplicateType _ => .duplicateType
  | .duplicateBinding _ => .duplicateBinding
  | .repeatedVariable _ _ => .repeatedVariable

def subject : LoadError → String
  | .notDeclaration t => t.shown ++ " (" ++ shapeName t ++ ")"
  | .unnamedType => "decltype"
  | .clauseHead left right =>
    (Term.define left right).render ++ ": left side is not an application"
  | .signatureName left right =>
    (Term.isa left right).render ++ ": left side is not an identifier"
  | .duplicateType name => name
  | .duplicateBinding name => name
  | .repeatedVariable function name => function ++ ": " ++ name

def message (e : LoadError) : String := e.subject ++ ": " ++ e.cause.text

end LoadError

/-- A compiled clause: the function's name, its parameters, its body, and the elements of its
    left side as they were written. -/
structure Clause where
  name : String
  params : List Pattern
  body : Term
  left : List Term
  deriving DecidableEq, Repr

namespace Clause

def term (c : Clause) : Term := .define (.app c.left) c.body

/-- The first name that a list repeats, when the names in `seen` came before it. -/
def firstRepeat? (seen : List String) : List String → Option String
  | [] => none
  | name :: rest => if seen.contains name then some name else firstRepeat? (name :: seen) rest

/-- Compiles the two sides of a clause. With `linear`, no variable may stand twice among the
    parameters. -/
def compile (linear : Bool) (left right : Term) : Except LoadError Clause :=
  match left with
  | .app (head :: args) =>
    let params := args.map Pattern.ofTerm
    let name := head.render
    match if linear then firstRepeat? [] (params.filterMap Pattern.boundName?) else none with
    | some repeated => .error (.repeatedVariable name repeated)
    | none => .ok ⟨name, params, right, head :: args⟩
  | _ => .error (.clauseHead left right)

end Clause

end Clausal
