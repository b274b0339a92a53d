/-
  Clausal.Environment.Desk

  Tables side by side, reached through handles. A table has a handle of its own. A frozen handle is
  made of another one: what is asked through it is asked through that one, and it writes nothing.
  Freezing makes a new handle each time, unless the handle is frozen already.
-/
import Clausal.Environment.Table

namespace Clausal.Environment

/-- What tables are reached through. Each frozen handle that is made has a number of its own, so two
    that were made of the same handle are told apart. -/
inductive Handle where
  | table (slot : Nat)
  | frozen (number : Nat) (shown : Handle)
  deriving DecidableEq, Repr

namespace Handle

/-- The place of the table that is reached in the end. -/
def slot : Handle → Nat
  | .table slot => slot
  | .frozen _ shown => shown.slot

def isFrozen : Handle → Bool
  | .table _ => false
  | .frozen _ _ => true

end Handle

/-- Tables side by side, and how many frozen handles were made so far. -/
structure Desk (α : Type) where
  tables : List (Table α)
  made : Nat

namespace Desk

variable {α : Type}

def empty : Desk α := ⟨[], 0⟩

/-- Lays one more empty table on the desk. -/
def add (d : Desk α) : Handle × Desk α :=
  (.table d.tables.length, { d with tables := d.tables ++ [.empty] })

def tableAt (d : Desk α) (slot : Nat) : Table α := (d.tables[slot]?).getD .empty

/-- Changes the table at a place, unless the change is refused. -/
def update (d : Desk α) (slot : Nat) (change : Table α → Except Fault (Table α)) :
    Except Fault (Desk α) :=
  (change (d.tableAt slot)).map fun t => { d with tables := d.tables.set slot t }

def define (d : Desk α) (h : Handle) (name : String) (value : α) : Except Fault (Desk α) :=
  match h with
  | .table slot => d.update slot (·.define name value)
  | .frozen _ _ => .error (.readOnly name)

def assign (d : Desk α) (h : Handle) (name : String) (value : α) : Except Fault (Desk α) :=
  match h with
  | .table slot => d.update slot (·.assign name value)
  | .frozen _ _ => .error (.readOnly name)

def resolve (d : Desk α) : Handle → String → Except Fault α
  | .table slot, name => (d.tableAt slot).resolve name
  | .frozen _ shown, name => d.resolve shown name

def names (d : Desk α) : Handle → List String
  | .table slot => (d.tableAt slot).names
  | .frozen _ shown => d.names shown

/-- A handle that shows the same and writes nothing: a new one, or the handle itself if it is frozen
    already. -/
def freeze (d : Desk α) (h : Handle) : Handle × Desk α :=
  match h with
  | .frozen number shown => (.frozen number shown, d)
  | .table slot => (.frozen d.made (.table slot), { d with made := d.made + 1 })

end Desk

end Clausal.Environment
