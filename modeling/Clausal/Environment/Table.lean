/-
  Clausal.Environment.Table

  A table of named values as it is kept: the names, in the order in which they were defined, and
  apart from them the values by name. Whether a name is there is asked of the values, what is there
  is listed from the names; the two are kept in step by every write.
-/
import Clausal.Environment.Basic

namespace Clausal.Environment

/-- The names in the order of definition, and the value of each. -/
structure Table (α : Type) where
  names : List String
  values : String → Option α

namespace Table

variable {α : Type}

def empty : Table α := ⟨[], fun _ => none⟩

/-- The values with another one under a name. -/
def withValue (t : Table α) (name : String) (value : α) : String → Option α :=
  fun other => if other = name then some value else t.values other

/-- The table with a new name behind the others. -/
def added (t : Table α) (name : String) (value : α) : Table α :=
  ⟨t.names ++ [name], t.withValue name value⟩

/-- The table with another value under a name that is listed already. -/
def changed (t : Table α) (name : String) (value : α) : Table α :=
  { t with values := t.withValue name value }

/-- Gives a new name its first value. -/
def define (t : Table α) (name : String) (value : α) : Except Fault (Table α) :=
  match t.values name with
  | some _ => .error (.alreadyDefined name)
  | none => .ok (t.added name value)

/-- Gives a defined name another value. -/
def assign (t : Table α) (name : String) (value : α) : Except Fault (Table α) :=
  match t.values name with
  | some _ => .ok (t.changed name value)
  | none => .error (.notDefined name)

def resolve (t : Table α) (name : String) : Except Fault α :=
  match t.values name with
  | some value => .ok value
  | none => .error (.notDefined name)

end Table

end Clausal.Environment
