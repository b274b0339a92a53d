/-
  Clausal.Proofs.Tables

  The two halves of a table stay in step: a name is listed exactly if it has a value, and it is
  listed once (`Table.InStep`). Nothing in a table says so by itself, but every write keeps it.

  Programs are described with environments, where each name stands beside its value. A table stands
  for an environment (`Table.Refines`), and whatever is then asked of the two is answered alike and
  leaves two that stand for each other again; every table that is in step stands for one
  (`Table.InStep.refines_listed`).
-/
import Clausal.Environment.Table
import Mathlib.Data.List.Basic

namespace Clausal.Environment.Table

variable {α : Type} {t t' : Table α} {name : String} {value : α}

/-! ## What a write does -/

@[simp] theorem names_added (t : Table α) (name : String) (value : α) :
    (t.added name value).names = t.names ++ [name] := rfl

@[simp] theorem names_changed (t : Table α) (name : String) (value : α) :
    (t.changed name value).names = t.names := rfl

@[simp] theorem values_added (t : Table α) (name : String) (value : α) (other : String) :
    (t.added name value).values other = if other = name then some value else t.values other := rfl

@[simp] theorem values_changed (t : Table α) (name : String) (value : α) (other : String) :
    (t.changed name value).values other = if other = name then some value else t.values other :=
  rfl

theorem define_eq_ok_iff :
    t.define name value = .ok t' ↔ t.values name = none ∧ t' = t.added name value := by
  rw [define]
  cases t.values name <;> simp [@eq_comm _ t']

theorem assign_eq_ok_iff :
    t.assign name value = .ok t' ↔ t.values name ≠ none ∧ t' = t.changed name value := by
  rw [assign]
  cases t.values name <;> simp [@eq_comm _ t']

theorem define_eq_error_iff :
    t.define name value = .error (.alreadyDefined name) ↔ t.values name ≠ none := by
  rw [define]
  cases t.values name <;> simp

theorem assign_eq_error_iff :
    t.assign name value = .error (.notDefined name) ↔ t.values name = none := by
  rw [assign]
  cases t.values name <;> simp

theorem resolve_eq_ok_iff : t.resolve name = .ok value ↔ t.values name = some value := by
  rw [resolve]
  cases t.values name <;> simp

theorem resolve_eq_error_iff :
    t.resolve name = .error (.notDefined name) ↔ t.values name = none := by
  rw [resolve]
  cases t.values name <;> simp

/-! ## In step -/

/-- The names that are listed are those with a value, each once. -/
structure InStep (t : Table α) : Prop where
  nodup : t.names.Nodup
  mem_names_iff : ∀ name, name ∈ t.names ↔ t.values name ≠ none

namespace InStep

theorem empty : (empty : Table α).InStep := ⟨List.nodup_nil, fun _ => by simp [Table.empty]⟩

theorem added (h : t.InStep) (hnew : t.values name = none) (value : α) :
    (t.added name value).InStep where
  nodup := by
    -- A name without a value is not listed yet.
    have hnot : name ∉ t.names := fun hmem => (h.mem_names_iff name).1 hmem hnew
    have hne : ∀ other ∈ t.names, other ≠ name := by
      rintro other hother rfl
      exact hnot hother
    simpa [List.nodup_append, h.nodup] using hne
  mem_names_iff other := by
    rw [names_added, values_added, List.mem_append, List.mem_singleton, h.mem_names_iff]
    by_cases hother : other = name <;> simp [hother]

theorem changed (h : t.InStep) (hold : t.values name ≠ none) (value : α) :
    (t.changed name value).InStep where
  nodup := h.nodup
  mem_names_iff other := by
    rw [names_changed, values_changed, h.mem_names_iff]
    by_cases hother : other = name
    · simp [hother, hold]
    · simp [hother]

theorem define (h : t.InStep) (hdefine : t.define name value = .ok t') : t'.InStep := by
  obtain ⟨hnew, rfl⟩ := define_eq_ok_iff.1 hdefine
  exact h.added hnew value

theorem assign (h : t.InStep) (hassign : t.assign name value = .ok t') : t'.InStep := by
  obtain ⟨hold, rfl⟩ := assign_eq_ok_iff.1 hassign
  exact h.changed hold value

end InStep

/-! ## Tables and environments -/

/-- A table stands for an environment: it lists the same names and finds the same values. -/
structure Refines (t : Table α) (e : Environment α) : Prop where
  names_eq : t.names = e.names
  values_eq : ∀ name, t.values name = e.get? name

/-- Two writes are refused for the same reason, or lead to a table and an environment that it stands
    for. -/
def Alike : Except Fault (Table α) → Except Fault (Environment α) → Prop
  | .ok t, .ok e => t.Refines e
  | .error f, .error f' => f = f'
  | _, _ => False

namespace Refines

variable {e : Environment α}

theorem empty : (empty : Table α).Refines .empty := ⟨rfl, fun _ => rfl⟩

theorem contains_eq (h : t.Refines e) (name : String) : e.contains name = (t.values name).isSome := by
  rw [contains, h.values_eq]

theorem added (h : t.Refines e) (hnew : t.values name = none) (value : α) :
    (t.added name value).Refines (e.put name value) where
  names_eq := by
    rw [names_put, h.contains_eq, hnew, if_neg (by simp), names_added, h.names_eq]
  values_eq other := by rw [values_added, get?_put, h.values_eq]

theorem changed (h : t.Refines e) (hold : t.values name ≠ none) (value : α) :
    (t.changed name value).Refines (e.put name value) where
  names_eq := by
    rw [names_put, h.contains_eq, if_pos (Option.isSome_iff_ne_none.2 hold), names_changed,
      h.names_eq]
  values_eq other := by rw [values_changed, get?_put, h.values_eq]

theorem define (h : t.Refines e) (name : String) (value : α) :
    Alike (t.define name value) (e.define name value) := by
  rw [Table.define, Environment.define, h.contains_eq]
  cases hvalue : t.values name with
  | none => exact h.added hvalue value
  | some old => rfl

theorem assign (h : t.Refines e) (name : String) (value : α) :
    Alike (t.assign name value) (e.assign name value) := by
  rw [Table.assign, Environment.assign, h.contains_eq]
  cases hvalue : t.values name with
  | none => rfl
  | some old => exact h.changed (by simp [hvalue]) value

/-- A value that is put in is defined or assigned, whichever is possible. -/
theorem put (h : t.Refines e) (name : String) (value : α) :
    Alike (if (t.values name).isSome then t.assign name value else t.define name value)
      (.ok (e.put name value)) := by
  split
  · rename_i hold
    rw [assign_eq_ok_iff.2 ⟨Option.isSome_iff_ne_none.1 hold, rfl⟩]
    exact h.changed (Option.isSome_iff_ne_none.1 hold) value
  · rename_i hnew
    rw [define_eq_ok_iff.2 ⟨Option.not_isSome_iff_eq_none.1 hnew, rfl⟩]
    exact h.added (Option.not_isSome_iff_eq_none.1 hnew) value

theorem resolve (h : t.Refines e) (name : String) : t.resolve name = e.resolve name := by
  have hvalue := h.values_eq name
  cases hget : e.get? name <;> simp [Table.resolve, Environment.resolve, hvalue, hget]

end Refines

/-- The names of a table with their values. -/
def listed (t : Table α) : Environment α :=
  ⟨t.names.filterMap fun name => (t.values name).map (name, ·)⟩

theorem lookup_listed (values : String → Option α) (names : List String) (name : String) :
    (names.filterMap fun other => (values other).map (other, ·)).lookup name
      = if name ∈ names then values name else none := by
  induction names with
  | nil => rfl
  | cons first rest ih =>
    cases hfirst : values first with
    | none =>
      rw [List.filterMap_cons_none (by rw [hfirst]; rfl), ih]
      by_cases hname : name = first
      · simp [hname, hfirst]
      · simp [hname]
    | some value =>
      rw [List.filterMap_cons_some (by rw [hfirst]; rfl), List.lookup_cons, ih]
      by_cases hname : name = first
      · simp [hname, hfirst]
      · simp [hname, beq_false_of_ne hname]

/-- A table that is in step stands for the environment that its names and values make. -/
theorem InStep.refines_listed (h : t.InStep) : t.Refines t.listed where
  names_eq := by
    have hall : ∀ name ∈ t.names, ((t.values name).map (name, ·)).map Prod.fst = some name := by
      intro name hname
      obtain ⟨value, hvalue⟩ := Option.ne_none_iff_exists'.1 ((h.mem_names_iff name).1 hname)
      rw [hvalue]
      rfl
    rw [listed, Environment.names, List.map_filterMap, List.filterMap_congr hall,
      List.filterMap_some]
  values_eq name := by
    rw [listed, get?, lookup_listed]
    split
    · rfl
    · rename_i hnot
      exact not_not.1 (mt (h.mem_names_iff name).2 hnot)

end Clausal.Environment.Table
