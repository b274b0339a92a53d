/-
  Clausal.Machine.Run

  The machine run to its result. Between two calls it does only so much: every step enters a
  call, or leaves one, or goes to a smaller piece of work. `Machine.step_lt` says so, and a run
  that may enter only a given number of calls therefore ends. Within a step budget no more than
  that is ever asked for; without one the run is given up as unfinished.
-/
import Clausal.Machine.Step

namespace Clausal

/-! ## The measure -/

theorem Term.size_pos (t : Term) : 0 < t.size := by
  cases t <;> simp [Term.size]

namespace Machine

/-- The work in reducing some arguments. -/
def argWork : List Term → Nat
  | [] => 0
  | t :: ts => 2 * t.size + 1 + argWork ts

/-- The work that a frame may still cause before a call is entered or left. -/
def frameWork : Frame → Nat
  | .head _ => 1
  | .call _ args attempt others _ =>
    1 + argWork attempt.args + others.length * (argWork args + 1)

/-- The work that some frames may still cause. -/
def framesWork : List Frame → Nat
  | [] => 0
  | f :: fs => frameWork f + framesWork fs

/-- The work in what the machine is about to do. -/
def controlWork : Control → Nat
  | .reduce t => 2 * t.size
  | .give _ => 0
  | .abandon _ => 0

/-- The work that lies before the machine until it enters or leaves a call. -/
def work (m : Machine) : Nat := controlWork m.control + framesWork m.frames

def openCalls (m : Machine) : Nat := m.frames.countP Frame.isCall

/-! ## Every step gets somewhere -/

/-- An argument that a call asks for is paid for by the clauses it takes up. -/
theorem start_work {args : List Term} {clauses : List Clause} {arg : Term} {attempt : Attempt}
    {others : List Clause} (h : Progress.start args clauses = .need arg attempt others) :
    2 * arg.size + 1 + argWork attempt.args + others.length * (argWork args + 1)
      < clauses.length * (argWork args + 1) := by
  induction clauses with
  | nil => simp [Progress.start] at h
  | cons c rest ih =>
    -- Each clause that is taken up brings the work of all arguments and one more.
    have grow : (rest.length + 1) * (argWork args + 1)
        = rest.length * (argWork args + 1) + (argWork args + 1) := by
      rw [Nat.add_mul, Nat.one_mul]
    rw [List.length_cons, grow]
    obtain ⟨name, params, body, left⟩ := c
    match params, args with
    | [], _ => simp [Progress.start] at h
    | _ :: _, [] =>
      have := ih (by simpa [Progress.start] using h)
      omega
    | pattern :: patterns, first :: more =>
      simp only [Progress.start] at h
      split at h
      · cases h
        simp only [argWork]
        omega
      · have := ih h
        omega

/-- An argument that an attempt asks for is paid for by the frame that waited. -/
theorem resume_work {a : Attempt} {args : List Term} {clauses : List Clause} {value arg : Term}
    {attempt : Attempt} {others : List Clause}
    (h : a.resume args clauses value = .need arg attempt others) :
    2 * arg.size + 1 + argWork attempt.args + others.length * (argWork args + 1)
      < 1 + argWork a.args + clauses.length * (argWork args + 1) := by
  unfold Attempt.resume at h
  split at h
  · unfold Attempt.advance at h
    split at h
    · rename_i hargs
      cases h
      simp [argWork, hargs]
    · simp at h
  · have := start_work h
    omega

/-- What is done about the progress of a call costs less than it has. -/
theorem proceed_lt (m : Machine) (name : String) (args : List Term) (goOn : Bool)
    (frames : List Frame) (progress : Progress) (budget : Nat)
    (h : ∀ arg attempt others, progress = .need arg attempt others →
      2 * arg.size + frameWork (.call name args attempt others goOn) < budget) :
    (m.proceed name args goOn frames progress).steps = m.steps ∧
      ((m.proceed name args goOn frames progress).openCalls < frames.countP Frame.isCall + 1 ∨
        (m.proceed name args goOn frames progress).openCalls = frames.countP Frame.isCall + 1 ∧
          (m.proceed name args goOn frames progress).work
            < budget + framesWork frames) := by
  cases progress with
  | need arg attempt others =>
    have := h arg attempt others rfl
    simp [proceed, openCalls, work, controlWork, framesWork, List.countP_cons, Frame.isCall]
    omega
  | matched body => simp [proceed, leave, openCalls]
  | stuck => simp [proceed, fail, leave, openCalls]

/-- Reducing a term goes to a smaller one, or to the term as a value. -/
theorem reduceTerm_lt (m : Machine) (t : Term) (h : m.control = .reduce t) :
    (m.reduceTerm t).steps = m.steps ∧ (m.reduceTerm t).openCalls = m.openCalls ∧
      (m.reduceTerm t).work < m.work := by
  have := Term.size_pos t
  -- A group and an application hand over to a smaller term; all else gives itself.
  simp only [reduceTerm]
  split
  all_goals
    simp_all [openCalls, work, controlWork, framesWork, frameWork, Term.size, Term.sizeAll,
      Frame.isCall]
  all_goals omega

/-- A call that is refused leaves the steps and the calls above which it was to stand; any other
    is entered. -/
theorem call_lt (program : Program) (config : Config) (m : Machine) (name : String)
    (args : List Term) (frames : List Frame) :
    m.steps < (m.call program config name args true frames).steps ∨
      (m.call program config name args true frames).steps = m.steps ∧
        (m.call program config name args true frames).openCalls = frames.countP Frame.isCall ∧
          (m.call program config name args true frames).work = framesWork frames := by
  unfold call
  split
  · right
    simp [openCalls, work, controlWork]
  · left
    simp only
    split
    · rename_i clauses _
      cases hp : Progress.start args clauses <;> simp [opened, proceed, fail, leave]
    · simp [opened, fail, leave]

/-- A step enters a call, or leaves one, or goes to a smaller piece of work. -/
theorem step_lt (program : Program) (config : Config) (m : Machine) (h : m.result? = none) :
    m.steps < (m.step program config).steps ∨
      (m.step program config).steps = m.steps ∧
        ((m.step program config).openCalls < m.openCalls ∨
          (m.step program config).openCalls = m.openCalls ∧
            (m.step program config).work < m.work) := by
  obtain ⟨control, frames, calls, steps, signal, events⟩ := m
  cases control with
  | reduce t =>
    right
    have key := reduceTerm_lt ⟨.reduce t, frames, calls, steps, signal, events⟩ t rfl
    exact ⟨key.1, Or.inr key.2⟩
  | give value =>
    cases frames with
    | nil => simp [result?] at h
    | cons frame frames =>
      cases frame with
      | head elems =>
        simp only [step, giveValue]
        split
        · rename_i name
          split
          · right
            simp [openCalls, work, controlWork, framesWork, frameWork, Frame.isCall]
          · -- The head is a function: either the call is refused, or it is entered and counted.
            rcases call_lt program config ⟨.give (.ident name), .head elems :: frames, calls, steps,
              signal, events⟩ name elems.tail frames with hlt | ⟨hsteps, hcalls, hwork⟩
            · left
              exact hlt
            · right
              refine ⟨hsteps, Or.inr ⟨?_, ?_⟩⟩
              · rw [hcalls]
                simp [openCalls, Frame.isCall]
              · rw [hwork]
                simp [work, controlWork, framesWork, frameWork]
        · right
          simp [openCalls, work, controlWork, framesWork, frameWork, Frame.isCall]
      | call name args attempt others goOn =>
        right
        -- The frame that waited pays for the next argument, or the call is left.
        simp only [step, giveValue]
        have key := proceed_lt ⟨.give value, .call name args attempt others goOn :: frames, calls,
          steps, signal, events⟩ name args goOn frames (attempt.resume args others value)
          (1 + argWork attempt.args + others.length * (argWork args + 1)) (by
            intro arg attempt' others' hneed
            have := resume_work hneed
            simp only [frameWork]
            omega)
        refine ⟨key.1, ?_⟩
        rcases key.2 with hlt | ⟨heq, hwork⟩
        · left
          simpa [openCalls, List.countP_cons, Frame.isCall] using hlt
        · right
          refine ⟨by simpa [openCalls, List.countP_cons, Frame.isCall] using heq, ?_⟩
          simpa [work, controlWork, framesWork, frameWork] using hwork
  | abandon f =>
    cases frames with
    | nil => simp [result?] at h
    | cons frame frames =>
      right
      cases frame with
      | head elems =>
        simp [step, abandonFrame, openCalls, work, controlWork, framesWork, frameWork,
          Frame.isCall]
      | call name args attempt others goOn =>
        simp [step, abandonFrame, leave, openCalls, List.countP_cons, Frame.isCall]

/-- A step that keeps within a limit of calls lowers what is left to do: first the calls that may
    still be entered, then those that are open, then the work. -/
theorem step_decreases (program : Program) (config : Config) {limit : Nat} {m : Machine}
    (hpending : m.result? = none) (hwithin : (m.step program config).steps ≤ limit) :
    Prod.Lex (· < ·) (Prod.Lex (· < ·) (· < ·))
      (limit - (m.step program config).steps, (m.step program config).openCalls,
        (m.step program config).work)
      (limit - m.steps, m.openCalls, m.work) := by
  rcases step_lt program config m hpending with hsteps | ⟨hsteps, hcalls | ⟨hcalls, hwork⟩⟩
  · exact Prod.Lex.left _ _ (by omega)
  · rw [hsteps]
    exact Prod.Lex.right _ (Prod.Lex.left _ _ hcalls)
  · rw [hsteps, hcalls]
    exact Prod.Lex.right _ (Prod.Lex.right _ hwork)

/-! ## Running -/

/-- Runs the machine to its result, as long as no more than `limit` calls are entered. Gives the
    result, if there is one, and the machine as it was last. -/
def run (program : Program) (config : Config) (limit : Nat) (m : Machine) :
    Option (Except Failure Term) × Machine :=
  match _pending : m.result? with
  | some result => (some result, m)
  | none =>
    let next := m.step program config
    if next.steps ≤ limit then run program config limit next else (none, m)
termination_by (limit - m.steps, m.openCalls, m.work)
decreasing_by exact step_decreases program config _pending ‹_›

end Machine

end Clausal
