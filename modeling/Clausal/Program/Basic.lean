/-
  Clausal.Program.Basic

  Programs: declarations sorted into types, clauses and signatures. Declarations are taken in
  order and the first one that does not fit is reported; a program is never changed once it is
  loaded.
-/
import Clausal.Environment.Basic
import Clausal.Program.Clause

namespace Clausal

/-- A loaded program. `constructors` gives for each constructor the type it builds, the latest
    declaration first. -/
structure Program where
  types : Environment Term
  clauses : Environment (List Clause)
  bindings : Environment Term
  constructors : List (String × String)
  deriving Repr

namespace Program

def empty : Program := ⟨.empty, .empty, .empty, []⟩

/-! ## Loading -/

/-- The name that a constructor of a type declaration goes by. -/
def constructorName? : Term → Option String
  | .app (head :: _) => some head.render
  | _ => none

def addType (p : Program) (elems : List Term) : Except LoadError Program :=
  match elems with
  | [] => .error .unnamedType
  | head :: _ =>
    let name := head.render
    match p.types.define name (.entity elems) with
    | .error _ => .error (.duplicateType name)
    | .ok types =>
      let found := (Term.constructors elems).filterMap constructorName?
      .ok { p with
        types := types
        constructors := (found.map fun c => (c, name)).reverse ++ p.constructors }

/-- Adds a clause behind the clauses of its function. -/
def addClause (p : Program) (c : Clause) : Program :=
  { p with clauses := p.clauses.put c.name ((p.clauses.get? c.name).getD [] ++ [c]) }

def addBinding (p : Program) (left right : Term) : Except LoadError Program :=
  match left with
  | .ident name =>
    match p.bindings.define name right with
    | .error _ => .error (.duplicateBinding name)
    | .ok bindings => .ok { p with bindings := bindings }
  | _ => .error (.signatureName left right)

def add (linear : Bool) (p : Program) (declaration : Term) : Except LoadError Program :=
  match declaration with
  | .entity elems => p.addType elems
  | .define left right => (Clause.compile linear left right).map p.addClause
  | .isa left right => p.addBinding left right
  | .builtin left right => p.addBinding left right
  | t => .error (.notDeclaration t)

/-- The program that some declarations make. -/
def load (linear : Bool) (declarations : List Term) : Except LoadError Program :=
  declarations.foldlM (add linear) .empty

/-! ## Asking -/

/-- Why a program has no clauses to offer. -/
structure UnknownFunction where
  name : String
  deriving DecidableEq, Repr

def UnknownFunction.message (e : UnknownFunction) : String :=
  e.name ++ ": " ++ Cause.unknownFunction.text

/-- The clauses of a function, in the order of declaration. -/
def clausesOf (p : Program) (name : String) : Except UnknownFunction (List Clause) :=
  match p.clauses.get? name with
  | some list => .ok list
  | none => .error ⟨name⟩

/-- The type that declares a constructor. -/
def typeOfConstructor? (p : Program) (name : String) : Option String := p.constructors.lookup name

/-- Whether an application headed by a name is a value already: the name is a constructor that
    no clause rewrites. -/
def isValueHead (p : Program) (name : String) : Bool :=
  (p.typeOfConstructor? name).isSome && !p.clauses.contains name

/-- The functions that have clauses and no signature. -/
def undeclared (p : Program) : List String :=
  p.clauses.names.filter fun name => !p.bindings.contains name

end Program

end Clausal
