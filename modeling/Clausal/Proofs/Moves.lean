/-
  Clausal.Proofs.Moves

  What one step can do, said once. `Machine.Moves` lists the ways in which a step may change the
  open calls, the count of calls, the interrupt and the events, together with the calls that the
  frames are still to leave (`heldCalls`). `Machine.step_moves` says that the list is complete;
  an invariant of these parts of a machine is proved by cases on it.
-/
import Clausal.Proofs.Run

namespace Clausal

namespace Frame

/-- The call that a frame is to leave. -/
def call? : Frame → Option OpenCall
  | .head _ => none
  | .call name args _ _ _ => some ⟨name, args⟩

end Frame

namespace Machine

variable {program : Program} {config : Config}

/-- The calls that some frames are to leave, the innermost first. -/
def heldCalls (frames : List Frame) : List OpenCall := frames.filterMap Frame.call?

@[simp] theorem heldCalls_nil : heldCalls [] = [] := rfl

@[simp] theorem heldCalls_head (elems : List Term) (frames : List Frame) :
    heldCalls (.head elems :: frames) = heldCalls frames := rfl

@[simp] theorem heldCalls_call (name : String) (args : List Term) (attempt : Attempt)
    (others : List Clause) (goOn : Bool) (frames : List Frame) :
    heldCalls (.call name args attempt others goOn :: frames) = ⟨name, args⟩ :: heldCalls frames :=
  rfl

/-- A machine that is not giving up. -/
def Busy (m : Machine) : Prop := ∀ f, m.control ≠ .abandon f

/-- A failure that arises in a machine: a term is missing, or something went wrong below the calls
    that are open. -/
def Arises (m : Machine) (f : Failure) : Prop :=
  f = .absent ∨ ∃ name cause, f = m.failure name cause

/-- The ways in which a machine may change in one step. -/
inductive Moves (program : Program) (config : Config) (m : Machine) : Machine → Prop where
  /-- Nothing is left to do. -/
  | rest : Moves program config m m
  /-- Work goes on without a call being entered or left. -/
  | work {control : Control} {frames : List Frame} :
      m.Busy → (∀ f, control ≠ .abandon f) → heldCalls frames = heldCalls m.frames →
      Moves program config m { m with control := control, frames := frames }
  /-- Something goes wrong between two calls. -/
  | fault {f : Failure} {frames : List Frame} :
      m.Busy → m.Arises f → heldCalls frames = heldCalls m.frames →
      Moves program config m { m with control := .abandon f, frames := frames }
  /-- A call of a known function is entered. -/
  | enter {name : String} {args : List Term} {goOn : Bool} {frames : List Frame}
      {progress : Progress} :
      m.Busy → m.refusal? config = none → heldCalls frames = heldCalls m.frames →
      Moves program config m ((m.opened name args).proceed name args goOn frames progress)
  /-- A call of an unknown function is entered, and left at once. -/
  | stray {name : String} {args : List Term} {frames : List Frame} :
      m.Busy → m.refusal? config = none → heldCalls frames = heldCalls m.frames →
      Moves program config m ((m.opened name args).fail name .unknownFunction frames)
  /-- The innermost call goes on. -/
  | resume {name : String} {args : List Term} {goOn : Bool} {frames : List Frame}
      {progress : Progress} :
      m.Busy → heldCalls m.frames = ⟨name, args⟩ :: heldCalls frames →
      Moves program config m (m.proceed name args goOn frames progress)
  /-- A failure passes something other than a call. -/
  | pass {f : Failure} {frames : List Frame} :
      m.control = .abandon f → heldCalls frames = heldCalls m.frames →
      Moves program config m { m with frames := frames }
  /-- A failure goes through the innermost call. -/
  | unwind {f : Failure} {name : String} {args : List Term} {frames : List Frame} :
      m.control = .abandon f → heldCalls m.frames = ⟨name, args⟩ :: heldCalls frames →
      Moves program config m (m.leave name (.error f) (.abandon f) frames)

/-- To begin with a term enters no call. -/
theorem reduceTerm_moves {m : Machine} {t : Term} (h : m.control = .reduce t) :
    Moves program config m (m.reduceTerm t) := by
  have hbusy : m.Busy := by
    intro f hf
    rw [h] at hf
    cases hf
  unfold reduceTerm
  split
  · exact .work hbusy (by simp) rfl
  · exact .work hbusy (by simp) rfl
  · exact .work hbusy (by simp) rfl
  · exact .work hbusy (by simp) rfl
  · exact .fault hbusy (.inr ⟨_, _, rfl⟩) rfl
  · exact .fault hbusy (.inr ⟨_, _, rfl⟩) rfl
  · exact .fault hbusy (.inl rfl) rfl
  · exact .work hbusy (by simp) rfl

/-- A call is refused, or entered. -/
theorem call_moves {m : Machine} (hbusy : m.Busy) (name : String) (args : List Term) (goOn : Bool)
    {frames : List Frame} (hheld : heldCalls frames = heldCalls m.frames) :
    Moves program config m (m.call program config name args goOn frames) := by
  unfold call
  split
  · exact .fault hbusy (.inr ⟨_, _, rfl⟩) hheld
  · rename_i hrefusal
    simp only
    -- A name without clauses is entered too, but is left at once.
    split
    · exact .enter hbusy hrefusal hheld
    · exact .stray hbusy hrefusal hheld

theorem giveValue_moves {m : Machine} {value : Term} (h : m.control = .give value) :
    Moves program config m (m.giveValue program config value) := by
  have hbusy : m.Busy := by
    intro f hf
    rw [h] at hf
    cases hf
  unfold giveValue
  split
  · exact .rest
  · rename_i elems frames hframes
    -- The frame of a head leaves no call, so the calls below it are those of the whole stack.
    have hheld : heldCalls frames = heldCalls m.frames := by rw [hframes, heldCalls_head]
    split
    · split
      · exact .work hbusy (by simp) hheld
      · exact call_moves hbusy _ _ _ hheld
    · exact .fault hbusy (.inr ⟨_, _, rfl⟩) hheld
  · rename_i name args attempt others goOn frames hframes
    exact .resume hbusy (by rw [hframes, heldCalls_call])

theorem abandonFrame_moves {m : Machine} {f : Failure} (h : m.control = .abandon f) :
    Moves program config m (m.abandonFrame f) := by
  unfold abandonFrame
  split
  · exact .rest
  · rename_i elems frames hframes
    exact .pass h (by rw [hframes, heldCalls_head])
  · rename_i name args attempt others goOn frames hframes
    exact .unwind h (by rw [hframes, heldCalls_call])

/-- Every step is one of the moves. -/
theorem step_moves (program : Program) (config : Config) (m : Machine) :
    Moves program config m (m.step program config) := by
  unfold step
  split
  · rename_i t h
    exact reduceTerm_moves h
  · rename_i value h
    exact giveValue_moves h
  · rename_i f h
    exact abandonFrame_moves h

/-- A call may be entered exactly if no interrupt is raised and both budgets leave room. -/
theorem refusal?_eq_none_iff {m : Machine} :
    m.refusal? config = none ↔
      ¬ (config.interruptible = true ∧ m.signal.raised = true) ∧
        ¬ (0 < config.maxSteps ∧ config.maxSteps ≤ m.steps) ∧
        ¬ (0 < config.maxDepth ∧ config.maxDepth ≤ m.calls.depth) := by
  simp only [refusal?, Bool.and_eq_true, decide_eq_true_eq]
  split
  · simp_all
  · split
    · simp_all
    · split <;> simp_all

/-! ## What every move does to the interrupt and the count of calls -/

@[simp] theorem signal_proceed (m : Machine) (name : String) (args : List Term) (goOn : Bool)
    (frames : List Frame) (progress : Progress) :
    (m.proceed name args goOn frames progress).signal = m.signal := by
  cases progress <;> rfl

@[simp] theorem steps_proceed (m : Machine) (name : String) (args : List Term) (goOn : Bool)
    (frames : List Frame) (progress : Progress) :
    (m.proceed name args goOn frames progress).steps = m.steps := by
  cases progress <;> rfl

/-- A move leaves the interrupt alone or, if it enters a call, lets it come one call nearer. -/
theorem Moves.signal {m m' : Machine} (h : Moves program config m m') :
    m'.signal = m.signal ∨ m'.signal = m.signal.tick := by
  cases h with
  | rest => exact .inl rfl
  | work _ _ _ => exact .inl rfl
  | fault _ _ _ => exact .inl rfl
  | enter _ _ _ =>
    right
    rw [signal_proceed]
    rfl
  | stray _ _ _ => exact .inr rfl
  | resume _ _ =>
    left
    rw [signal_proceed]
  | pass _ _ => exact .inl rfl
  | unwind _ _ => exact .inl rfl

/-- How many calls the events tell of. -/
def enters (events : List (Event Failure)) : Nat := events.countP Event.isEnter

@[simp] theorem enters_enter (depth : Nat) (name : String) (args : List Term)
    (events : List (Event Failure)) :
    enters (.enter depth name args :: events) = enters events + 1 :=
  List.countP_cons_of_pos rfl

@[simp] theorem enters_leave (depth : Nat) (name : String) (result : Except Failure Term)
    (events : List (Event Failure)) :
    enters (.leave depth name result :: events) = enters events :=
  List.countP_cons_of_neg Bool.false_ne_true

@[simp] theorem enters_append (events events' : List (Event Failure)) :
    enters (events ++ events') = enters events + enters events' := List.countP_append

@[simp] theorem enters_reverse (events : List (Event Failure)) :
    enters events.reverse = enters events := List.countP_reverse

@[simp] theorem enters_proceed (m : Machine) (name : String) (args : List Term) (goOn : Bool)
    (frames : List Frame) (progress : Progress) :
    enters (m.proceed name args goOn frames progress).events = enters m.events := by
  cases progress with
  | need arg attempt others => rfl
  | matched body => simp [proceed, leave]
  | stuck => simp [proceed, fail, leave]

/-- Every call that is counted is told of. -/
theorem Moves.enters {m m' : Machine} (h : Moves program config m m') :
    m'.steps + Machine.enters m.events = m.steps + Machine.enters m'.events := by
  cases h with
  | rest => rfl
  | work _ _ _ => rfl
  | fault _ _ _ => rfl
  | enter _ _ _ =>
    simp only [steps_proceed, enters_proceed, opened, enters_enter]
    omega
  | stray _ _ _ =>
    simp only [fail, leave, opened, enters_enter, enters_leave]
    omega
  | resume _ _ => simp only [steps_proceed, enters_proceed]
  | pass _ _ => rfl
  | unwind _ _ => simp only [leave, enters_leave]

theorem Reaches.enters {m m' : Machine} (h : Reaches program config m m') :
    m'.steps + Machine.enters m.events = m.steps + Machine.enters m'.events := by
  -- What each step adds to one count it adds to the other.
  refine h.invariant (P := fun x =>
    x.steps + Machine.enters m.events = m.steps + Machine.enters x.events) ?_ rfl
  intro x hx
  have hmove := (step_moves program config x).enters
  omega

end Machine

end Clausal
