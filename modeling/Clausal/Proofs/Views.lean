/-
  Clausal.Proofs.Views

  Tables and their frozen handles, over whatever is asked of them. A `Service` is a desk with the
  handles that were given out, and a record of what was asked and answered so far. What a handle
  shows is read off that record:

    * `Desk.Effect` lists what an action through a handle can do: give a new name its value, give a
      defined name another one, give out a frozen handle, or nothing; `Desk.perform_effect` says
      that the list is complete;
    * `Table.Tells` relates a table to the names that were defined in it and the values that were
      written to it, and each write keeps it;
    * `Service.Sound` says so of every table on the desk. A step keeps it (`Sound.step`), hence every
      list of steps does (`Service.after_sound`);
    * `Service.handles_tell_history` reads off what this means for the handles.
-/
import Clausal.Environment.Desk
import Clausal.Proofs.Repeats
import Clausal.Proofs.Tables

namespace Clausal.Environment

variable {α : Type}

/-! ## What was written to a table -/

namespace Table

/-- The names of a table are those that were defined in it, in order, and under each name stands what
    was written last. Its names and its values are in step. -/
structure Tells (t : Table α) (defined : List String) (written : List (String × α)) : Prop where
  names_eq : t.names = defined
  values_eq : ∀ name, t.values name = written.reverse.lookup name
  inStep : t.InStep

namespace Tells

theorem empty : (empty : Table α).Tells [] [] := ⟨rfl, fun _ => rfl, .empty⟩

variable {t : Table α} {defined : List String} {written : List (String × α)} {name : String}

/-- A name that is defined goes to the end. -/
theorem added (h : t.Tells defined written) (hnew : t.values name = none) (value : α) :
    (t.added name value).Tells (defined ++ [name]) (written ++ [(name, value)]) where
  names_eq := by rw [names_added, h.names_eq]
  values_eq other := by
    simp only [values_added, lookup_reverse_concat, h.values_eq, beq_iff_eq]
  inStep := h.inStep.added hnew value

/-- A name that is assigned to keeps its place. -/
theorem changed (h : t.Tells defined written) (hold : t.values name ≠ none) (value : α) :
    (t.changed name value).Tells defined (written ++ [(name, value)]) where
  names_eq := h.names_eq
  values_eq other := by
    simp only [values_changed, lookup_reverse_concat, h.values_eq, beq_iff_eq]
  inStep := h.inStep.changed hold value

end Tells

end Table

/-! ## Actions through a handle -/

/-- What may be asked through a handle. -/
inductive Action (α : Type) where
  | define (name : String) (value : α)
  | assign (name : String) (value : α)
  | resolve (name : String)
  | names
  | freeze
  deriving DecidableEq

/-- What an action is answered with. -/
inductive Answer (α : Type) where
  | done
  | value (x : α)
  | names (list : List String)
  | handle (h : Handle)
  | refused (f : Fault)
  deriving DecidableEq

/-- The handle that was given out. -/
def Answer.handle? : Answer α → Option Handle
  | .handle h => some h
  | _ => none

/-- How a frozen handle comes from the one that it was made of: it is that one, or it shows the table
    that this one reaches. -/
inductive Handle.FrozenOf : Handle → Handle → Prop where
  | same (number : Nat) (shown : Handle) : FrozenOf (.frozen number shown) (.frozen number shown)
  | made (number slot : Nat) : FrozenOf (.frozen number (.table slot)) (.table slot)

namespace Desk

variable {d d' : Desk α} {h w : Handle} {name : String} {value : α}

/-- A write is carried out or refused. -/
def conclude (d : Desk α) : Except Fault (Desk α) → Answer α × Desk α
  | .ok d' => (.done, d')
  | .error f => (.refused f, d)

/-- What is answered to an action through a handle, and the desk after it. -/
def perform (d : Desk α) (h : Handle) : Action α → Answer α × Desk α
  | .define name value => d.conclude (d.define h name value)
  | .assign name value => d.conclude (d.assign h name value)
  | .resolve name =>
    match d.resolve h name with
    | .ok x => (.value x, d)
    | .error f => (.refused f, d)
  | .names => (.names (d.names h), d)
  | .freeze => (.handle (d.freeze h).1, (d.freeze h).2)

/-- The desk with another table in a place. -/
def withTable (d : Desk α) (slot : Nat) (t : Table α) : Desk α :=
  { d with tables := d.tables.set slot t }

/-! ### Tables in their places -/

/-- A new table is empty, as is what stands in a place that is free. -/
theorem tableAt_add (d : Desk α) (slot : Nat) : d.add.2.tableAt slot = d.tableAt slot := by
  rw [tableAt, tableAt, add]
  rcases Nat.lt_trichotomy slot d.tables.length with hlt | heq | hgt
  · rw [List.getElem?_append_left hlt]
  · simp [heq]
  · rw [List.getElem?_eq_none (by simp; omega), List.getElem?_eq_none (by omega)]

/-- A write shows in the place where it is made and in no other. -/
theorem tableAt_withTable {slot : Nat} (hplaced : slot < d.tables.length) (t : Table α)
    (other : Nat) :
    (d.withTable slot t).tableAt other = if other = slot then t else d.tableAt other := by
  rw [tableAt, tableAt, withTable, List.getElem?_set]
  by_cases heq : other = slot
  · simp [heq, hplaced]
  · simp [heq, Ne.symm heq]

/-- What is asked through a handle is asked of the table that it reaches in the end. -/
theorem resolve_eq (d : Desk α) (h : Handle) (name : String) :
    d.resolve h name = (d.tableAt h.slot).resolve name := by
  induction h with
  | table slot => rfl
  | frozen number shown ih => exact ih

theorem names_eq (d : Desk α) (h : Handle) : d.names h = (d.tableAt h.slot).names := by
  induction h with
  | table slot => rfl
  | frozen number shown ih => exact ih

/-! ### What a write comes to -/

theorem define_of_frozen (hfrozen : h.isFrozen = true) (name : String) (value : α) :
    d.define h name value = .error (.readOnly name) := by
  cases h with
  | table slot => cases hfrozen
  | frozen number shown => rfl

theorem assign_of_frozen (hfrozen : h.isFrozen = true) (name : String) (value : α) :
    d.assign h name value = .error (.readOnly name) := by
  cases h with
  | table slot => cases hfrozen
  | frozen number shown => rfl

theorem update_eq_ok_iff {slot : Nat} {change : Table α → Except Fault (Table α)} :
    d.update slot change = .ok d' ↔
      ∃ t, change (d.tableAt slot) = .ok t ∧ d' = d.withTable slot t := by
  rw [update]
  cases change (d.tableAt slot) <;> simp [Except.map, withTable, @eq_comm _ d']

theorem update_eq_error_iff {slot : Nat} {change : Table α → Except Fault (Table α)} {f : Fault} :
    d.update slot change = .error f ↔ change (d.tableAt slot) = .error f := by
  rw [update]
  cases change (d.tableAt slot) <;> simp [Except.map]

theorem define_eq_ok_iff : d.define h name value = .ok d' ↔
    h.isFrozen = false ∧ (d.tableAt h.slot).values name = none ∧
      d' = d.withTable h.slot ((d.tableAt h.slot).added name value) := by
  cases h with
  | table slot =>
    simp [define, update_eq_ok_iff, Table.define_eq_ok_iff, Handle.isFrozen, Handle.slot, and_assoc]
  | frozen number shown => simp [define, Handle.isFrozen]

theorem assign_eq_ok_iff : d.assign h name value = .ok d' ↔
    h.isFrozen = false ∧ (d.tableAt h.slot).values name ≠ none ∧
      d' = d.withTable h.slot ((d.tableAt h.slot).changed name value) := by
  cases h with
  | table slot =>
    simp [assign, update_eq_ok_iff, Table.assign_eq_ok_iff, Handle.isFrozen, Handle.slot, and_assoc]
  | frozen number shown => simp [assign, Handle.isFrozen]

theorem define_eq_error_iff (hfrozen : h.isFrozen = false) :
    d.define h name value = .error (.alreadyDefined name) ↔
      (d.tableAt h.slot).values name ≠ none := by
  cases h with
  | table slot =>
    rw [define, update_eq_error_iff]
    exact Table.define_eq_error_iff
  | frozen number shown => cases hfrozen

theorem assign_eq_error_iff (hfrozen : h.isFrozen = false) :
    d.assign h name value = .error (.notDefined name) ↔ (d.tableAt h.slot).values name = none := by
  cases h with
  | table slot =>
    rw [assign, update_eq_error_iff]
    exact Table.assign_eq_error_iff
  | frozen number shown => cases hfrozen

/-! ### What an action may do -/

/-- The ways in which an action through a handle may end. -/
inductive Effect (d : Desk α) (h : Handle) : Action α → Answer α → Desk α → Prop where
  /-- A new name has its first value. -/
  | define {name : String} {value : α} : (d.tableAt h.slot).values name = none →
      Effect d h (.define name value) .done
        (d.withTable h.slot ((d.tableAt h.slot).added name value))
  /-- A defined name has another value. -/
  | assign {name : String} {value : α} : (d.tableAt h.slot).values name ≠ none →
      Effect d h (.assign name value) .done
        (d.withTable h.slot ((d.tableAt h.slot).changed name value))
  /-- A frozen handle is given out that was not there before. -/
  | made {slot : Nat} : h = .table slot →
      Effect d h .freeze (.handle (.frozen d.made h)) { d with made := d.made + 1 }
  /-- A frozen handle is given out again. -/
  | same : h.isFrozen = true → Effect d h .freeze (.handle h) d
  /-- Nothing happens. -/
  | keep {action : Action α} {answer : Answer α} : answer ≠ .done → answer.handle? = none →
      action ≠ .freeze → Effect d h action answer d

/-- Every action ends in one of these ways. -/
theorem perform_effect (d : Desk α) (h : Handle) (action : Action α) :
    d.Effect h action (d.perform h action).1 (d.perform h action).2 := by
  cases action with
  | define name value =>
    rw [perform]
    cases hdefine : d.define h name value with
    | error f => exact .keep nofun rfl nofun
    | ok d' =>
      obtain ⟨-, hnew, rfl⟩ := define_eq_ok_iff.1 hdefine
      exact .define hnew
  | assign name value =>
    rw [perform]
    cases hassign : d.assign h name value with
    | error f => exact .keep nofun rfl nofun
    | ok d' =>
      obtain ⟨-, hold, rfl⟩ := assign_eq_ok_iff.1 hassign
      exact .assign hold
  | resolve name =>
    rw [perform]
    cases d.resolve h name <;> exact .keep nofun rfl nofun
  | names => exact .keep nofun rfl nofun
  | freeze =>
    cases h with
    | table slot => exact .made rfl
    | frozen number shown => exact .same rfl

namespace Effect

variable {action : Action α} {answer : Answer α}

theorem length_tables (heffect : d.Effect h action answer d') :
    d'.tables.length = d.tables.length := by
  cases heffect with
  | define _ => exact List.length_set
  | assign _ => exact List.length_set
  | _ => rfl

/-- The other tables are left alone. -/
theorem tableAt_elsewhere (heffect : d.Effect h action answer d')
    (hplaced : h.slot < d.tables.length) {slot : Nat} (hslot : slot ≠ h.slot) :
    d'.tableAt slot = d.tableAt slot := by
  cases heffect with
  | define _ => rw [tableAt_withTable hplaced, if_neg hslot]
  | assign _ => rw [tableAt_withTable hplaced, if_neg hslot]
  | _ => rfl

/-- Of the handles that are there, a frozen one is given out again, and only a handle with the next
    number is new. -/
theorem handle_cases (heffect : d.Effect h action answer d') (hw : answer.handle? = some w) :
    (w = h ∧ d'.made = d.made) ∨ w = .frozen d.made h ∧ d'.made = d.made + 1 := by
  cases heffect with
  | define _ => cases hw
  | assign _ => cases hw
  | made _ =>
    cases hw
    exact .inr ⟨rfl, rfl⟩
  | same _ =>
    cases hw
    exact .inl ⟨rfl, rfl⟩
  | keep _ hnone _ =>
    rw [hnone] at hw
    cases hw

/-- A handle that is given out reaches the same table. -/
theorem slot_of_handle (heffect : d.Effect h action answer d') (hw : answer.handle? = some w) :
    w.slot = h.slot := by
  rcases heffect.handle_cases hw with ⟨rfl, -⟩ | ⟨rfl, -⟩
  · rfl
  · rfl

theorem made_le (heffect : d.Effect h action answer d') : d.made ≤ d'.made := by
  cases heffect with
  | made _ => exact Nat.le_succ _
  | _ => exact Nat.le_refl _

/-- Freezing gives out a handle, and it comes from the one that is frozen. -/
theorem frozenOf (heffect : d.Effect h .freeze answer d') :
    ∃ w, answer = .handle w ∧ w.FrozenOf h := by
  cases heffect with
  | made hh =>
    subst hh
    exact ⟨_, rfl, .made _ _⟩
  | same hfrozen =>
    cases h with
    | table slot => cases hfrozen
    | frozen number shown => exact ⟨_, rfl, .same _ _⟩
  | keep _ _ hnot => exact absurd rfl hnot

end Effect

/-- An action that is refused leaves everything as it was. -/
theorem perform_refused {action : Action α} {f : Fault}
    (hrefused : (d.perform h action).1 = .refused f) : (d.perform h action).2 = d := by
  have heffect := d.perform_effect h action
  rw [hrefused] at heffect
  generalize (d.perform h action).2 = d' at heffect
  cases heffect
  rfl

end Desk

/-! ## What was asked and answered -/

/-- An action with its answer, and the handle through which it was asked for. -/
structure Exchange (α : Type) where
  handle : Handle
  action : Action α
  answer : Answer α
  deriving DecidableEq

/-- The name that was defined in the table at a place, if one was. -/
def Exchange.defined? (slot : Nat) (x : Exchange α) : Option String :=
  match x.action, x.answer with
  | .define name _, .done => if x.handle.slot = slot then some name else none
  | _, _ => none

/-- The value that was written to the table at a place, if one was, with its name. -/
def Exchange.written? (slot : Nat) (x : Exchange α) : Option (String × α) :=
  match x.action, x.answer with
  | .define name value, .done => if x.handle.slot = slot then some (name, value) else none
  | .assign name value, .done => if x.handle.slot = slot then some (name, value) else none
  | _, _ => none

/-- The names that were defined in the table at a place, in order. -/
def definedIn (past : List (Exchange α)) (slot : Nat) : List String :=
  past.filterMap (·.defined? slot)

/-- The values that were written to the table at a place, in order. -/
def writtenIn (past : List (Exchange α)) (slot : Nat) : List (String × α) :=
  past.filterMap (·.written? slot)

theorem definedIn_concat (past : List (Exchange α)) (x : Exchange α) (slot : Nat) :
    definedIn (past ++ [x]) slot = definedIn past slot ++ (x.defined? slot).toList := by
  cases h : x.defined? slot <;> simp [definedIn, h]

theorem writtenIn_concat (past : List (Exchange α)) (x : Exchange α) (slot : Nat) :
    writtenIn (past ++ [x]) slot = writtenIn past slot ++ (x.written? slot).toList := by
  cases h : x.written? slot <;> simp [writtenIn, h]

namespace Exchange

variable {slot : Nat} {x : Exchange α}

theorem defined?_of_ne_done (h : x.answer ≠ .done) : x.defined? slot = none := by
  unfold defined?
  split <;> simp_all

theorem written?_of_ne_done (h : x.answer ≠ .done) : x.written? slot = none := by
  unfold written?
  split <;> simp_all

/-- Through a handle of one table nothing is defined in another. -/
theorem defined?_elsewhere (h : x.handle.slot ≠ slot) : x.defined? slot = none := by
  unfold defined?
  split <;> simp [h]

theorem written?_elsewhere (h : x.handle.slot ≠ slot) : x.written? slot = none := by
  unfold written?
  split <;> simp [h]

end Exchange

/-- What a table tells is kept when something is done through a handle, be it a handle of that table
    or of another one. -/
theorem Desk.Effect.tells {d d' : Desk α} {h : Handle} {action : Action α} {answer : Answer α}
    (heffect : d.Effect h action answer d') (hplaced : h.slot < d.tables.length)
    {past : List (Exchange α)} {slot : Nat}
    (htells : (d.tableAt slot).Tells (definedIn past slot) (writtenIn past slot)) :
    (d'.tableAt slot).Tells (definedIn (past ++ [⟨h, action, answer⟩]) slot)
      (writtenIn (past ++ [⟨h, action, answer⟩]) slot) := by
  rw [definedIn_concat, writtenIn_concat]
  by_cases hslot : slot = h.slot
  · subst hslot
    cases heffect with
    | define hnew =>
      simpa [tableAt_withTable hplaced, Exchange.defined?, Exchange.written?]
        using htells.added hnew _
    | assign hold =>
      simpa [tableAt_withTable hplaced, Exchange.defined?, Exchange.written?]
        using htells.changed hold _
    | made _ =>
      show (d.tableAt h.slot).Tells _ _
      simpa [Exchange.defined?, Exchange.written?] using htells
    | same _ => simpa [Exchange.defined?, Exchange.written?] using htells
    | keep hanswer _ _ =>
      rw [Exchange.defined?_of_ne_done hanswer, Exchange.written?_of_ne_done hanswer]
      simpa using htells
  · -- Another table: it is not touched, and nothing is entered for it.
    have hne : h.slot ≠ slot := Ne.symm hslot
    rw [Exchange.defined?_elsewhere hne, Exchange.written?_elsewhere hne,
      heffect.tableAt_elsewhere hplaced hslot]
    simpa using htells

/-! ## Steps -/

/-- A new table is laid on the desk, or something is asked through a handle, which is known by its
    place among those that were given out. -/
inductive Step (α : Type) where
  | add
  | act (place : Nat) (action : Action α)

/-- A desk, the handles that were given out, and what was asked and answered so far. -/
structure Service (α : Type) where
  desk : Desk α
  handles : List Handle
  past : List (Exchange α)

namespace Service

def empty : Service α := ⟨.empty, [], []⟩

/-- A handle that was not given out is not answered. -/
def step (s : Service α) : Step α → Service α
  | .add => { s with desk := s.desk.add.2, handles := s.handles ++ [s.desk.add.1] }
  | .act place action =>
    match s.handles[place]? with
    | none => s
    | some h =>
      let (answer, desk) := s.desk.perform h action
      ⟨desk, s.handles ++ answer.handle?.toList, s.past ++ [⟨h, action, answer⟩]⟩

def after (steps : List (Step α)) : Service α := steps.foldl step empty

/-- Every table tells what was written to it, the handles reach tables that are there, and the
    numbers of frozen handles are those that were used so far. -/
structure Sound (s : Service α) : Prop where
  tells : ∀ slot, (s.desk.tableAt slot).Tells (definedIn s.past slot) (writtenIn s.past slot)
  placed : ∀ h ∈ s.handles, h.slot < s.desk.tables.length
  numbered : ∀ number shown, .frozen number shown ∈ s.handles → number < s.desk.made
  freezes : ∀ x ∈ s.past, x.action = .freeze →
    ∃ w ∈ s.handles, x.answer = .handle w ∧ w.FrozenOf x.handle

theorem empty_sound : (empty : Service α).Sound where
  tells _ := .empty
  placed := nofun
  numbered := nofun
  freezes := nofun

theorem Sound.add {s : Service α} (h : s.Sound) : (s.step .add).Sound where
  tells slot := by
    simpa only [step, Desk.tableAt_add] using h.tells slot
  placed w hw := by
    have hlength : s.desk.add.2.tables.length = s.desk.tables.length + 1 := by simp [Desk.add]
    show w.slot < s.desk.add.2.tables.length
    rw [hlength]
    rcases List.mem_append.1 hw with hw | hw
    · exact Nat.lt_succ_of_lt (h.placed w hw)
    · rw [List.mem_singleton.1 hw]
      exact Nat.lt_succ_self _
  numbered number shown hw := by
    rcases List.mem_append.1 hw with hw | hw
    · exact h.numbered number shown hw
    · cases List.mem_singleton.1 hw
  freezes x hx hfreeze := by
    obtain ⟨w, hw, hfrozen⟩ := h.freezes x hx hfreeze
    exact ⟨w, List.mem_append_left _ hw, hfrozen⟩

theorem step_act {s : Service α} {place : Nat} {h : Handle} (hplace : s.handles[place]? = some h)
    (action : Action α) : s.step (.act place action) =
      ⟨(s.desk.perform h action).2, s.handles ++ (s.desk.perform h action).1.handle?.toList,
        s.past ++ [⟨h, action, (s.desk.perform h action).1⟩]⟩ := by
  rw [step, hplace]

theorem Sound.act {s : Service α} (hs : s.Sound) (place : Nat) (action : Action α) :
    (s.step (.act place action)).Sound := by
  cases hplace : s.handles[place]? with
  | none =>
    rw [step, hplace]
    exact hs
  | some h =>
    have hmem : h ∈ s.handles := List.mem_of_getElem? hplace
    have hplaced := hs.placed h hmem
    have heffect := s.desk.perform_effect h action
    rw [step_act hplace]
    generalize (s.desk.perform h action).1 = answer at heffect
    generalize (s.desk.perform h action).2 = desk at heffect
    refine ⟨fun slot => heffect.tells hplaced (hs.tells slot), fun w hw => ?_,
      fun number shown hw => ?_, fun x hx hfreeze => ?_⟩
    · show w.slot < desk.tables.length
      rw [heffect.length_tables]
      rcases List.mem_append.1 hw with hw | hw
      · exact hs.placed w hw
      · rw [heffect.slot_of_handle (Option.mem_toList.1 hw)]
        exact hplaced
    · show number < desk.made
      rcases List.mem_append.1 hw with hw | hw
      · exact Nat.lt_of_lt_of_le (hs.numbered number shown hw) heffect.made_le
      · -- The handle is one that was there, or it has the number that comes next.
        rcases heffect.handle_cases (Option.mem_toList.1 hw) with ⟨rfl, hmade⟩ | ⟨heq, hmade⟩
        · rw [hmade]
          exact hs.numbered number shown hmem
        · cases heq
          rw [hmade]
          exact Nat.lt_succ_self _
    · rcases List.mem_append.1 hx with hx | hx
      · obtain ⟨w, hw, hfrozen⟩ := hs.freezes x hx hfreeze
        exact ⟨w, List.mem_append_left _ hw, hfrozen⟩
      · -- The exchange of this step: a frozen handle was just given out.
        obtain rfl := List.mem_singleton.1 hx
        obtain rfl : action = .freeze := hfreeze
        obtain ⟨w, rfl, hfrozen⟩ := heffect.frozenOf
        exact ⟨w, List.mem_append_right _ List.mem_cons_self, rfl, hfrozen⟩

theorem Sound.step {s : Service α} (h : s.Sound) : ∀ next, (s.step next).Sound
  | .add => h.add
  | .act place action => h.act place action

theorem after_sound (steps : List (Step α)) : (after steps).Sound := by
  -- From the end, since the last step is taken from what the others come to.
  induction steps using List.reverseRecOn with
  | nil => exact empty_sound
  | append_singleton steps next ih =>
    rw [after, List.foldl_concat]
    exact ih.step next

/-! ## What the handles show -/

/-- What is asked through a handle is answered as the record says: the names are those that were
    defined, and under each stands what was written last. Writing is refused exactly if the name is
    there already, or is not there yet, and always if the handle is frozen. -/
structure Answers (s : Service α) (h : Handle) : Prop where
  in_step : (s.desk.tableAt h.slot).InStep
  names_eq : s.desk.names h = definedIn s.past h.slot
  names_nodup : (s.desk.names h).Nodup
  mem_names_iff : ∀ name, name ∈ s.desk.names h ↔ ∃ x, s.desk.resolve h name = .ok x
  resolve_iff : ∀ name x, s.desk.resolve h name = .ok x ↔
    (writtenIn s.past h.slot).reverse.lookup name = some x
  resolve_refused_iff : ∀ name, s.desk.resolve h name = .error (.notDefined name) ↔
    ∀ x, (name, x) ∉ writtenIn s.past h.slot
  define_iff : h.isFrozen = false → ∀ name value,
    (∃ d, s.desk.define h name value = .ok d) ↔ name ∉ s.desk.names h
  define_refused_iff : h.isFrozen = false → ∀ name value,
    s.desk.define h name value = .error (.alreadyDefined name) ↔ name ∈ s.desk.names h
  assign_iff : h.isFrozen = false → ∀ name value,
    (∃ d, s.desk.assign h name value = .ok d) ↔ name ∈ s.desk.names h
  assign_refused_iff : h.isFrozen = false → ∀ name value,
    s.desk.assign h name value = .error (.notDefined name) ↔ name ∉ s.desk.names h
  frozen_refused : h.isFrozen = true → ∀ name value,
    s.desk.define h name value = .error (.readOnly name) ∧
      s.desk.assign h name value = .error (.readOnly name)
  refused_keeps : ∀ action f, (s.desk.perform h action).1 = .refused f →
    (s.desk.perform h action).2 = s.desk

theorem Sound.answers {s : Service α} (hs : s.Sound) (h : Handle) : s.Answers h := by
  have htells := hs.tells h.slot
  have hlisted : ∀ name, name ∈ s.desk.names h ↔ (s.desk.tableAt h.slot).values name ≠ none := by
    intro name
    rw [Desk.names_eq]
    exact htells.inStep.mem_names_iff name
  have hfree : ∀ name, name ∉ s.desk.names h ↔ (s.desk.tableAt h.slot).values name = none := by
    intro name
    rw [hlisted, not_not]
  refine ⟨htells.inStep, ?_, ?_, fun name => ?_, fun name x => ?_, fun name => ?_,
    fun hfrozen name value => ?_, fun hfrozen name value => ?_, fun hfrozen name value => ?_,
    fun hfrozen name value => ?_, fun hfrozen name value => ?_, fun action f => ?_⟩
  · rw [Desk.names_eq]
    exact htells.names_eq
  · rw [Desk.names_eq]
    exact htells.inStep.nodup
  · simp only [hlisted, Desk.resolve_eq, Table.resolve_eq_ok_iff, Option.ne_none_iff_exists']
  · rw [Desk.resolve_eq, Table.resolve_eq_ok_iff, htells.values_eq]
  · rw [Desk.resolve_eq, Table.resolve_eq_error_iff, htells.values_eq, lookup_reverse_eq_none_iff]
  · simp [Desk.define_eq_ok_iff, hfrozen, hfree]
  · rw [Desk.define_eq_error_iff hfrozen, hlisted]
  · simp [Desk.assign_eq_ok_iff, hfrozen, hlisted]
  · rw [Desk.assign_eq_error_iff hfrozen, hfree]
  · exact ⟨Desk.define_of_frozen hfrozen name value, Desk.assign_of_frozen hfrozen name value⟩
  · exact Desk.perform_refused

/-- A frozen handle shows what the handle shows that it was made of, and is that handle if that one
    is frozen itself. -/
structure Wraps (s : Service α) (w h : Handle) : Prop where
  frozen : w.isFrozen = true
  names_eq : s.desk.names w = s.desk.names h
  resolve_eq : ∀ name, s.desk.resolve w name = s.desk.resolve h name
  eq_of_frozen : h.isFrozen = true → w = h

theorem wraps_of_frozenOf (s : Service α) {w h : Handle} (hfrozen : w.FrozenOf h) :
    s.Wraps w h := by
  cases hfrozen with
  | same number shown => exact ⟨rfl, rfl, fun _ => rfl, fun _ => rfl⟩
  | made number slot => exact ⟨rfl, rfl, fun _ => rfl, nofun⟩

/-- A handle that is not frozen yet is given a frozen one that nobody has. -/
theorem Sound.freeze_new {s : Service α} (hs : s.Sound) {h : Handle} (hfrozen : h.isFrozen = false) :
    (s.desk.freeze h).1 ∉ s.handles := by
  cases h with
  | table slot => exact fun hmem => Nat.lt_irrefl _ (hs.numbered _ _ hmem)
  | frozen number shown => cases hfrozen

/-- **Handles tell the history of their tables.** Whatever was asked of a desk, through whatever
    handles, every handle answers as the record says (`Service.Answers`). A frozen handle that was
    given out at any time shows now what the handle shows now that was frozen, whatever was written
    in the meantime, and is that handle if that one was frozen; a handle that is not frozen is given
    one that nobody has yet. And what is laid on the desk next is empty and is reached by no handle
    yet. -/
theorem handles_tell_history (steps : List (Step α)) :
    (∀ h ∈ (after steps).handles, (after steps).Answers h) ∧
      (∀ x ∈ (after steps).past, x.action = .freeze →
        ∃ w ∈ (after steps).handles, x.answer = .handle w ∧ (after steps).Wraps w x.handle) ∧
      (∀ h ∈ (after steps).handles,
        (h.isFrozen = true → (after steps).desk.freeze h = (h, (after steps).desk)) ∧
        (h.isFrozen = false → ((after steps).desk.freeze h).1 ∉ (after steps).handles)) ∧
      (after steps).desk.add.2.names (after steps).desk.add.1 = [] ∧
      ∀ h ∈ (after steps).handles, h.slot ≠ (after steps).desk.add.1.slot := by
  have hsound := after_sound steps
  refine ⟨fun h _ => hsound.answers h, fun x hx hfreeze => ?_,
    fun h _ => ⟨fun hfrozen => ?_, hsound.freeze_new⟩, ?_, fun h hh => ?_⟩
  · -- The handle that was given out then is looked at now.
    obtain ⟨w, hmem, hanswer, hfrozen⟩ := hsound.freezes x hx hfreeze
    exact ⟨w, hmem, hanswer, wraps_of_frozenOf _ hfrozen⟩
  · cases h with
    | table slot => cases hfrozen
    | frozen number shown => rfl
  · rw [Desk.names_eq, Desk.tableAt_add]
    simp [Desk.tableAt, Desk.add, Handle.slot, Table.empty]
  · exact Nat.ne_of_lt (hsound.placed h hh)

/-- Two tables, the first with two frozen handles that are made before anything is written, and one
    of them frozen once more; with some steps that are refused. -/
def crossedSteps : List (Step Nat) :=
  [.add, .act 0 .freeze, .act 0 .freeze, .act 1 .freeze, .act 0 (.define "a" 1), .add,
    .act 4 (.define "b" 5), .act 1 (.assign "a" 2), .act 0 (.define "a" 3),
    .act 0 (.define "b" 4), .act 0 (.assign "a" 6), .act 4 (.assign "a" 7)]

/-- The frozen handle shows what was written after it was made, in the first table only, and none of
    the values that were refused. It is not the other one that was made of the same handle, but it is
    what it was itself frozen to. -/
theorem handles_tell_history_crossed :
    (after crossedSteps).handles = [.table 0, .frozen 0 (.table 0), .frozen 1 (.table 0),
        .frozen 0 (.table 0), .table 1] ∧
      (after crossedSteps).desk.names (.frozen 0 (.table 0)) = ["a", "b"] ∧
      (after crossedSteps).desk.resolve (.frozen 0 (.table 0)) "a" = .ok 6 ∧
      (⟨.table 0, .freeze, .handle (.frozen 1 (.table 0))⟩ : Exchange Nat)
        ∈ (after crossedSteps).past ∧
      ∃ w ∈ (after crossedSteps).handles,
        (.handle (.frozen 1 (.table 0)) : Answer Nat) = .handle w ∧
          (after crossedSteps).Wraps w (.table 0) := by
  obtain ⟨hanswers, hfrozen, -⟩ := handles_tell_history crossedSteps
  have hhandles : (after crossedSteps).handles = [.table 0, .frozen 0 (.table 0),
      .frozen 1 (.table 0), .frozen 0 (.table 0), .table 1] := by decide
  have hpast : (⟨.table 0, .freeze, .handle (.frozen 1 (.table 0))⟩ : Exchange Nat)
      ∈ (after crossedSteps).past := by decide
  have hanswer := hanswers (.frozen 0 (.table 0)) (by rw [hhandles]; decide)
  refine ⟨hhandles, ?_, ?_, hpast, hfrozen _ hpast rfl⟩
  · rw [hanswer.names_eq]
    decide
  · rw [hanswer.resolve_iff]
    decide

end Service

end Clausal.Environment
