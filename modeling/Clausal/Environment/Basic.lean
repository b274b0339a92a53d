/-
  Clausal.Environment.Basic

  Tables of named values. A name is defined once and may be assigned any number of times
  after that; names are listed in the order in which they were defined. Each name stands beside its
  value here, as programs are read; how tables are kept, with the names apart from the values, is
  another matter (`Environment.Table`).
-/
import Clausal.Cause

namespace Clausal

/-- A table of named values, in the order of definition. -/
structure Environment (α : Type) where
  entries : List (String × α)
  deriving Repr

namespace Environment

/-- Why a table refuses a name. -/
inductive Fault where
  | alreadyDefined (name : String)
  | notDefined (name : String)
  | readOnly (name : String)
  deriving DecidableEq, Repr

def Fault.cause : Fault → Cause
  | .alreadyDefined _ => .alreadyDefined
  | .notDefined _ => .notDefined
  | .readOnly _ => .readOnly

def Fault.name : Fault → String
  | .alreadyDefined name => name
  | .notDefined name => name
  | .readOnly name => name

def Fault.message (f : Fault) : String := f.name ++ ": " ++ f.cause.text

variable {α : Type}

def empty : Environment α := ⟨[]⟩

/-- The value of a name, if it has one. -/
def get? (e : Environment α) (name : String) : Option α := e.entries.lookup name

def contains (e : Environment α) (name : String) : Bool := (e.get? name).isSome

/-- The defined names, in the order of definition. -/
def names (e : Environment α) : List String := e.entries.map (·.1)

/-- Gives a name a value, whether or not it had one. A new name goes to the end. -/
def put (e : Environment α) (name : String) (value : α) : Environment α :=
  if e.contains name then
    ⟨e.entries.map fun entry => if entry.1 = name then (name, value) else entry⟩
  else ⟨e.entries ++ [(name, value)]⟩

/-- Gives a new name its first value. -/
def define (e : Environment α) (name : String) (value : α) : Except Fault (Environment α) :=
  if e.contains name then .error (.alreadyDefined name) else .ok (e.put name value)

/-- Gives a defined name another value. -/
def assign (e : Environment α) (name : String) (value : α) : Except Fault (Environment α) :=
  if e.contains name then .ok (e.put name value) else .error (.notDefined name)

def resolve (e : Environment α) (name : String) : Except Fault α :=
  match e.get? name with
  | some value => .ok value
  | none => .error (.notDefined name)

/-! ## What is found after a change -/

/-- A new value under a name that may be there already. -/
theorem lookup_replaced (name : String) (value : α) (other : String)
    (entries : List (String × α)) :
    (entries.map fun entry => if entry.1 = name then (name, value) else entry).lookup other
      = if other = name then (entries.lookup name).map fun _ => value
        else entries.lookup other := by
  induction entries with
  | nil => simp
  | cons entry rest ih =>
    obtain ⟨key, old⟩ := entry
    rw [List.map_cons, List.lookup_cons, List.lookup_cons, List.lookup_cons, ih]
    by_cases hkey : key = name
    · subst hkey
      by_cases hother : other = key
      · simp [hother]
      · simp [hother, beq_false_of_ne hother]
    · by_cases hother : other = name
      · subst hother
        simp [hkey, beq_false_of_ne (Ne.symm hkey)]
      · simp [hkey, hother]

/-- A value that is put in is found under its name, and the others are found as before. -/
theorem get?_put (e : Environment α) (name : String) (value : α) (other : String) :
    (e.put name value).get? other = if other = name then some value else e.get? other := by
  unfold put
  split
  · rename_i hcontains
    obtain ⟨old, hold⟩ := Option.isSome_iff_exists.1 hcontains
    rw [get?] at hold
    rw [get?, lookup_replaced, hold]
    rfl
  · rename_i hcontains
    have hnone : e.get? name = none := Option.not_isSome_iff_eq_none.1 hcontains
    rw [get?] at hnone
    rw [get?, get?, List.lookup_append]
    by_cases hother : other = name
    · simp [hother, hnone]
    · simp [hother, List.lookup_cons, beq_false_of_ne hother]

/-! ## What is listed, and what is resolved -/

variable {e : Environment α}

theorem mem_names_iff {name : String} : name ∈ e.names ↔ e.contains name = true := by
  rw [names, contains, get?, List.lookup_isSome_iff]
  simp

theorem entries_put_of_not_contains {name : String} (h : e.contains name = false) (value : α) :
    (e.put name value).entries = e.entries ++ [(name, value)] := by
  rw [put, h, if_neg (by decide)]

/-- A name that is there already keeps its place, and another goes to the end. -/
theorem names_put (name : String) (value : α) :
    (e.put name value).names = if e.contains name then e.names else e.names ++ [name] := by
  rw [put]
  split
  · rw [names, names, List.map_map]
    refine List.map_congr_left fun entry _ => ?_
    rw [Function.comp_apply]
    split
    · rename_i hentry
      exact hentry.symm
    · rfl
  · rw [names, names, List.map_append]
    rfl

theorem resolve_eq_ok_iff {name : String} {value : α} :
    e.resolve name = .ok value ↔ e.get? name = some value := by
  rw [resolve]
  cases e.get? name <;> simp

theorem resolve_eq_error_iff {name : String} :
    e.resolve name = .error (.notDefined name) ↔ e.contains name = false := by
  rw [resolve, contains]
  cases e.get? name <;> simp

end Environment

end Clausal
