/-
  Clausal.Proofs.Idempotence

  Reducing what a reduction gave gives it again. A machine that comes to a value has reduced the
  value itself on the way, with the calls open that were open when it began
  (`Program.Evaluates.passes`). The machine that reduces the value a second time is a twin of the
  machine at that point: it does the same, but has counted more calls and has another interrupt
  before it (`Machine.Twin`). The two go in step until the second refuses a call
  (`Machine.Twin.reaches`); as both have the same calls open, it does so for the count of calls or
  for the interrupt, never for the depth.
-/
import Clausal.Proofs.Cutoff
import Clausal.Proofs.Extension

namespace Clausal

/-! ## The shape of values -/

/-- What a term may evaluate to. An application of two or more elements is a value only if its head
    evaluates to a constructor without clauses. -/
structure Program.Settled (p : Program) (v : Term) : Prop where
  not_hole : v ≠ .hole
  not_group : ∀ t, v ≠ .group t
  not_marker : v ≠ .marker ∧ v ≠ .builtinMarker
  not_single : ∀ t, v ≠ .app [t]
  head : ∀ head arg args, v = .app (head :: arg :: args) →
    ∃ name, p.Evaluates head (.ident name) ∧ p.isValueHead name = true

theorem Program.Evaluates.settled {p : Program} {t v : Term} (h : p.Evaluates t v) :
    p.Settled v := by
  induction h with
  | group _ ih => exact ih
  | single _ ih => exact ih
  | call _ _ _ _ _ _ _ _ _ ih => exact ih
  | @constructor head arg args name hhead hvalue _ =>
    refine ⟨by simp, by simp, by simp, by simp, ?_⟩
    rintro _ _ _ ⟨⟩
    exact ⟨name, hhead, hvalue⟩
  | _ => exact ⟨by simp, by simp, by simp, by simp, by simp⟩

/-- A value that is no application is given at once. -/
theorem Program.Settled.reduceTerm {p : Program} {v : Term} (h : p.Settled v)
    (hatom : v.isApp = false) (m : Machine) :
    m.reduceTerm v = { m with control := .give v } := by
  cases v with
  | group inner => exact absurd rfl (h.not_group inner)
  | marker => exact absurd rfl h.not_marker.1
  | builtinMarker => exact absurd rfl h.not_marker.2
  | hole => exact absurd rfl h.not_hole
  | seq kind elems =>
    cases kind with
    | application => cases hatom
    | arrow => rfl
    | entity => rfl
  | _ => rfl

namespace Machine

variable {program : Program} {config : Config} {lead : Nat} {m n : Machine}

/-! ## Calls that are refused -/

/-- A call that is made without giving up was not refused. -/
theorem not_refused_of_busy {name : String} {args : List Term} {frames : List Frame}
    (hcalls : m.Calls program name args frames) (hbusy : (m.step program config).Busy) :
    m.refusal? config = none := by
  cases hrefusal : m.refusal? config with
  | none => rfl
  | some cause =>
    rw [hcalls.step, call_of_refusal hrefusal] at hbusy
    exact absurd rfl (hbusy _)

/-- A machine that gives up comes to its failure without a further call. -/
theorem gives_up {f : Failure} (h : m.control = .abandon f) :
    ∃ m', Reaches program config m m' ∧ m'.result? = some (.error f) ∧ m'.steps = m.steps := by
  generalize hframes : m.frames = frames
  induction frames generalizing m with
  | nil => exact ⟨m, .refl m, result?_eq_error_iff.2 ⟨h, hframes⟩, rfl⟩
  | cons frame frames ih =>
    have hstep : (m.step program config).control = .abandon f ∧
        (m.step program config).frames = frames ∧ (m.step program config).steps = m.steps := by
      rw [step_abandon h, abandonFrame, hframes]
      cases frame with
      | head elems => exact ⟨h, rfl, rfl⟩
      | call name args attempt others goOn => exact ⟨rfl, rfl, rfl⟩
    obtain ⟨m', hreach, hr, hsteps⟩ := ih hstep.1 hstep.2.1
    exact ⟨m', hreach.of_step, hr, hsteps.trans hstep.2.2⟩

/-- A machine that comes to a call that it refuses comes to a failure. -/
theorem Stops.fails (h : m.Stops program config) :
    ∃ m' f, Reaches program config m m' ∧ m'.result? = some (.error f) := by
  obtain ⟨m₁, name, args, frames, cause, hreach, hcalls, hrefusal⟩ := h
  have hcontrol : (m₁.step program config).control = .abandon (m₁.failure name cause) := by
    rw [hcalls.step, call_of_refusal hrefusal]
  obtain ⟨m', hreach', hr, -⟩ := gives_up hcontrol
  exact ⟨m', _, hreach.trans hreach'.of_step, hr⟩

/-! ## Machines that do the same -/

/-- Two machines do the same, the second with more calls counted. Their interrupts and what happened
    to them so far may be different. -/
structure Twin (lead : Nat) (m n : Machine) : Prop where
  control : n.control = m.control
  frames : n.frames = m.frames
  calls : n.calls = m.calls
  steps : n.steps = m.steps + lead

namespace Twin

theorem failure (h : Twin lead m n) (name : String) (cause : Cause) :
    n.failure name cause = m.failure name cause := by
  rw [Machine.failure, Machine.failure, h.calls]

theorem leave (h : Twin lead m n) (name : String) (result : Except Failure Term)
    (control : Control) (frames : List Frame) :
    Twin lead (m.leave name result control frames) (n.leave name result control frames) :=
  ⟨rfl, rfl, congrArg CallStack.pop h.calls, h.steps⟩

theorem fail (h : Twin lead m n) (name : String) (cause : Cause) (frames : List Frame) :
    Twin lead (m.fail name cause frames) (n.fail name cause frames) := by
  rw [Machine.fail, Machine.fail, h.failure]
  exact h.leave name _ _ frames

theorem proceed (h : Twin lead m n) (name : String) (args : List Term) (goOn : Bool)
    (frames : List Frame) (progress : Progress) :
    Twin lead (m.proceed name args goOn frames progress)
      (n.proceed name args goOn frames progress) := by
  cases progress with
  | need arg attempt others => exact ⟨rfl, rfl, h.calls, h.steps⟩
  | matched body => exact h.leave name _ _ frames
  | stuck => exact h.fail name _ frames

theorem opened (h : Twin lead m n) (name : String) (args : List Term) :
    Twin lead (m.opened name args) (n.opened name args) where
  control := h.control
  frames := h.frames
  calls := congrArg (CallStack.push · ⟨name, args⟩) h.calls
  steps := by
    have hsteps := h.steps
    show n.steps + 1 = m.steps + 1 + lead
    omega

/-- Two calls that neither refuses are the same. -/
theorem call (h : Twin lead m n) (hm : m.refusal? config = none) (hn : n.refusal? config = none)
    (name : String) (args : List Term) (goOn : Bool) (frames : List Frame) :
    Twin lead (m.call program config name args goOn frames)
      (n.call program config name args goOn frames) := by
  simp only [Machine.call, hm, hn]
  split
  · exact (h.opened name args).proceed name args goOn frames _
  · exact (h.opened name args).fail name _ frames

/-- With the same calls open, the second refuses a call that the first does not only for the calls
    it has counted or for its interrupt. -/
theorem refusal (h : Twin lead m n) (hm : m.refusal? config = none) {cause : Cause}
    (hn : n.refusal? config = some cause) : cause = .stepBudget ∨ cause = .interrupted := by
  obtain ⟨-, -, hdepth⟩ := refusal?_eq_none_iff.1 hm
  rw [← h.calls] at hdepth
  unfold refusal? at hn
  split at hn
  · cases hn
    exact .inr rfl
  · split at hn
    · cases hn
      exact .inl rfl
    · split at hn
      · rename_i hexceeded
        exact absurd (by simpa using hexceeded) hdepth
      · cases hn

theorem reduceTerm (h : Twin lead m n) (t : Term) :
    Twin lead (m.reduceTerm t) (n.reduceTerm t) := by
  have hwork : ∀ control, Twin lead { m with control := control } { n with control := control } :=
    fun control => ⟨rfl, h.frames, h.calls, h.steps⟩
  unfold Machine.reduceTerm
  split
  · exact hwork _
  · exact hwork _
  · exact hwork _
  · exact ⟨rfl, congrArg (Frame.head _ :: ·) h.frames, h.calls, h.steps⟩
  · rw [h.failure]
    exact hwork _
  · rw [h.failure]
    exact hwork _
  · exact hwork _
  · exact hwork _

/-- A value is handed on alike, unless it is a function that is called. -/
theorem giveValue (h : Twin lead m n) {value : Term} (hm : m.control = .give value) :
    Twin lead (m.giveValue program config value) (n.giveValue program config value) ∨
      ∃ name args frames, m.Calls program name args frames := by
  have hframes := h.frames
  unfold Machine.giveValue
  split
  · rename_i heq
    rw [heq] at hframes
    simp only [hframes]
    exact .inl h
  · rename_i elems frames heq
    rw [heq] at hframes
    simp only [hframes]
    split
    · rename_i name
      split
      · exact .inl ⟨rfl, rfl, h.calls, h.steps⟩
      · rename_i hvalue
        exact .inr ⟨name, elems.tail, frames, hm, ⟨elems, heq, rfl⟩,
          Bool.eq_false_of_not_eq_true hvalue⟩
    · rw [h.failure]
      exact .inl ⟨rfl, rfl, h.calls, h.steps⟩
  · rename_i name args attempt others goOn frames heq
    rw [heq] at hframes
    simp only [hframes]
    exact .inl (h.proceed name args goOn frames _)

/-- Twins take the same step, unless it is a call. -/
theorem step (h : Twin lead m n) (hbusy : m.Busy) :
    Twin lead (m.step program config) (n.step program config) ∨
      ∃ name args frames, m.Calls program name args frames := by
  cases hm : m.control with
  | reduce t =>
    rw [step_reduce hm, step_reduce (h.control.trans hm)]
    exact .inl (h.reduceTerm t)
  | give value =>
    rw [step_give hm, step_give (h.control.trans hm)]
    exact h.giveValue hm
  | abandon f => exact absurd hm (hbusy f)

/-- A step of the first that does not give up is taken by the second as well, or the second refuses
    the call that it makes. -/
theorem step_or_refuse (h : Twin lead m n) (hbusy : (m.step program config).Busy) :
    Twin lead (m.step program config) (n.step program config) ∨
      ∃ f, (n.step program config).control = .abandon f ∧
        (f.cause = .stepBudget ∨ f.cause = .interrupted) ∧
        (n.step program config).steps = n.steps := by
  rcases h.step (busy_of_step hbusy) with hstep | ⟨name, args, frames, hcalls⟩
  · exact .inl hstep
  · have hcalls' : n.Calls program name args frames :=
      ⟨h.control.trans hcalls.control, h.frames ▸ hcalls.frames, hcalls.function⟩
    have hm : m.refusal? config = none := not_refused_of_busy hcalls hbusy
    rw [hcalls.step, hcalls'.step]
    cases hn : n.refusal? config with
    | none => exact .inl (h.call hm hn name args true frames)
    | some cause =>
      right
      rw [call_of_refusal hn]
      exact ⟨_, rfl, h.refusal hm hn, rfl⟩

/-- The two go in step until the second refuses a call. -/
theorem reaches (h : Twin lead m n) {m' : Machine} (hreach : Reaches program config m m')
    (hbusy : m'.Busy) :
    (∃ n', Reaches program config n n' ∧ Twin lead m' n') ∨
      ∃ n' f, Reaches program config n n' ∧ n'.control = .abandon f ∧
        (f.cause = .stepBudget ∨ f.cause = .interrupted) ∧ n'.steps ≤ m'.steps + lead := by
  induction hreach with
  | refl => exact .inl ⟨n, .refl n, h⟩
  | @tail x x' hx hstep ih =>
    subst hstep
    have hle : x.steps ≤ (x.step program config).steps := steps_le_step x
    rcases ih (busy_of_step hbusy) with ⟨n', hn', htwin⟩ | ⟨n', f, hn', hf, hcause, hsteps⟩
    · rcases htwin.step_or_refuse hbusy with hnext | ⟨f, hf, hcause, hsteps⟩
      · exact .inl ⟨_, hn'.trans (.step n'), hnext⟩
      · have hlead := htwin.steps
        exact .inr ⟨_, f, hn'.trans (.step n'), hf, hcause, by omega⟩
    · exact .inr ⟨n', f, hn', hf, hcause, by omega⟩

end Twin

end Machine

open Machine

/-! ## Reducing again -/

namespace Evaluator

variable {e : Evaluator} {t v : Term}

/-- An evaluator that has counted more calls than it may gives up at once. -/
theorem steps_le_of_value (h : (e.reduce t).outcome = .value v) : e.steps ≤ e.config.horizon := by
  by_contra hgt
  have hexceeded : ¬ ((e.machine (.reduce t)).step e.program e.config).steps ≤ e.config.horizon := by
    have hle : e.steps ≤ ((e.machine (.reduce t)).step e.program e.config).steps :=
      steps_le_step (e.machine (.reduce t))
    omega
  rw [reduce, finish_eq (run_of_exceeded rfl hexceeded)] at h
  cases h

/-- A reduction that comes to a value has reduced the value itself on the way, with the calls open
    that were open before. -/
theorem exists_turn (h : (e.reduce t).outcome = .value v) :
    ∃ m₁ m₂, (e.machine (.reduce t)).Regains (.reduce v) m₁ ∧
      Reaches e.program e.config m₁ m₂ ∧ (e.machine (.reduce t)).Regains (.give v) m₂ ∧
      m₂.steps ≤ e.config.horizon ∧ e.reduce t = e.settled m₂ (.ok v) := by
  have hroom := steps_le_of_value h
  rcases e.finish_cases (e.machine (.reduce t)) with hunfinished | ⟨m₂, r, hreach, hr, hsteps, heq⟩
  · rw [reduce, hunfinished] at h
    cases h
  · have hreduce : e.reduce t = e.settled m₂ r := heq
    obtain rfl : r = .ok v := by
      rw [hreduce] at h
      cases r with
      | error f => cases h
      | ok w =>
        cases h
        rfl
    rcases (evaluates_of_reduce h).passes (e.machine (.reduce t)) rfl with
      hstops | ⟨m₁, m', hreach₁, hm₁, hreach', hm'⟩
    · -- Where a call is refused there is no value.
      obtain ⟨m', f, hreach', hr'⟩ := hstops.fails
      have hsame := hreach.result_unique hr hreach' hr'
      rw [hsame, hr'] at hr
      cases hr
    · have hr' : m'.result? = some (.ok v) := result?_eq_ok_iff.2 ⟨hm'.control, hm'.frames⟩
      obtain rfl := hreach.result_unique hr (hreach₁.trans hreach') hr'
      exact ⟨m₁, m₂, hm₁, hreach', hm', hsteps.trans_eq (max_eq_left hroom), hreduce⟩

/-- Reducing a value again gives it again, unless a call is refused for the count of calls or for
    the interrupt. It takes no more calls than were made already. -/
theorem reduce_value (h : (e.reduce t).outcome = .value v) {patience : Nat}
    (hpatience : 2 * (e.reduce t).evaluator.steps ≤ patience) :
    (((e.reduce t).evaluator.patient patience).reduce v).outcome = .value v ∨
      ∃ f, (((e.reduce t).evaluator.patient patience).reduce v).outcome = .failure f ∧
        (f.cause = .stepBudget ∨ f.cause = .interrupted) := by
  obtain ⟨m₁, m₂, hm₁, hreach, hm₂, hsteps, hreduce⟩ := exists_turn h
  rw [hreduce] at hpatience ⊢
  let after := (e.settled m₂ (.ok v)).evaluator.patient patience
  have hreach : Reaches after.program after.config m₁ m₂ := hreach
  have hle : m₁.steps ≤ m₂.steps := hreach.steps_le
  -- The machine that reduces the value again is a twin of the one that did so on the way.
  have htwin : Twin (m₂.steps - m₁.steps) m₁ (after.machine (.reduce v)) :=
    ⟨hm₁.control.symm, hm₁.frames.symm, hm₂.calls.trans hm₁.calls.symm,
      (Nat.add_sub_cancel' hle).symm⟩
  have hstart : 0 < after.config.maxSteps → (m₂.steps : Int) ≤ after.config.maxSteps := by
    intro hbudget
    have hbudget : 0 < e.config.maxSteps := hbudget
    rw [Config.horizon, if_pos hbudget] at hsteps
    show (m₂.steps : Int) ≤ e.config.maxSteps
    omega
  have hends : ∀ n r, Reaches after.program after.config (after.machine (.reduce v)) n →
      n.result? = some r → n.steps ≤ m₂.steps + (m₂.steps - m₁.steps) →
      after.reduce v = after.settled n r := by
    intro n r hn hresult hbound
    have hbound : n.steps ≤ patience := by
      have hpatience : 2 * m₂.steps ≤ patience := hpatience
      omega
    exact finish_of_reaches hn hresult (hn.within_horizon hstart hbound)
  rcases htwin.reaches hreach (by simp [Busy, hm₂.control]) with
    ⟨n, hn, hsame⟩ | ⟨n, f, hn, hf, hcause, hbound⟩
  · left
    have hresult : n.result? = some (.ok v) :=
      result?_eq_ok_iff.2 ⟨hsame.control.trans hm₂.control, hsame.frames.trans hm₂.frames⟩
    show (after.reduce v).outcome = .value v
    rw [hends n _ hn hresult hsame.steps.le]
    rfl
  · right
    obtain ⟨n', hn', hresult, hn'steps⟩ := gives_up hf
    refine ⟨f, ?_, hcause⟩
    show (after.reduce v).outcome = .failure f
    rw [hends n' _ (hn.trans hn') hresult (hn'steps ▸ hbound)]
    rfl

/-- A term that is given at once takes no call. -/
theorem steps_of_give (h : ∀ m : Machine, m.reduceTerm v = { m with control := .give v }) :
    (e.reduce v).evaluator.steps = e.steps := by
  obtain ⟨hreach, -, -⟩ := run_reaches e.program e.config e.config.horizon (e.machine (.reduce v))
  have hstep : (e.machine (.reduce v)).step e.program e.config = e.machine (.give v) := h _
  rcases hreach.cases_step with heq | hreach
  · exact congrArg Machine.steps heq
  · rw [hstep] at hreach
    exact congrArg Machine.steps (hreach.eq_of_result rfl)

/-- **Reduction is idempotent, and running a program reduces at most twice.** What a reduction gives
    is settled. Reduced again on the same evaluator, with patience enough for as many calls as were
    made so far, it comes out as it is, or the reduction fails because of the step budget or the
    interrupt and for no other reason; a value that is no application takes no call at all.

    Hence running a program whose entry fits does not need a third round, however many there may be,
    and if it comes to a value, that is what the first reduction gave. -/
theorem reduction_idempotent (e : Evaluator) :
    (∀ t v, (e.reduce t).outcome = .value v →
      e.program.Settled v ∧
      ∀ patience, 2 * (e.reduce t).evaluator.steps ≤ patience →
        ((((e.reduce t).evaluator.patient patience).reduce v).outcome = .value v ∨
          ∃ f, (((e.reduce t).evaluator.patient patience).reduce v).outcome = .failure f ∧
            (f.cause = .stepBudget ∨ f.cause = .interrupted)) ∧
        (v.isApp = false →
          (((e.reduce t).evaluator.patient patience).reduce v).evaluator.steps
            = (e.reduce t).evaluator.steps)) ∧
    (e.program.entryFault? e.config = none →
      ∀ start, Term.app [.ident e.config.entryName, e.config.seedTerm] = start →
        (∀ rounds, interpretFrom (rounds + 2) e start = e.interpret) ∧
        (e.interpret = (e.reduce start).interpretation ∨
          ∃ v, (e.reduce start).outcome = .value v ∧ e.interpret =
            (((e.reduce start).evaluator.reduce v).preceded (e.reduce start).events).interpretation) ∧
        ∀ v, e.interpret.verdict = .value v → (e.reduce start).outcome = .value v) := by
  constructor
  · intro t v h
    have hsettled := (evaluates_of_reduce h).settled
    refine ⟨hsettled, fun patience hpatience => ⟨reduce_value h hpatience, fun hatom => ?_⟩⟩
    exact steps_of_give (hsettled.reduceTerm hatom)
  · rintro hentry start rfl
    have hinterpret : e.interpret = interpretFrom (e.config.patience + 2) e
        (.app [.ident e.config.entryName, e.config.seedTerm]) := by
      rw [interpret, hentry]
    rw [hinterpret]
    generalize Term.app [.ident e.config.entryName, e.config.seedTerm] = start
    rcases interpretFrom_cases e start with hone | ⟨v, hv, htwo⟩
    · rw [hone]
      exact ⟨hone, .inl rfl, fun v => Evaluation.interpretation_value.1⟩
    · rw [htwo]
      refine ⟨htwo, .inr ⟨v, hv, rfl⟩, fun w hw => ?_⟩
      have hw : ((e.reduce start).evaluator.reduce v).outcome = .value w :=
        Evaluation.interpretation_value.1 hw
      have hprogram : (e.reduce start).evaluator.program = e.program := rfl
      rw [hv, reduce_again hprogram hv hw]

/-- A constructor, and a function that gives it. -/
def headProgram : Program :=
  ⟨⟨[("t", .entity [.ident "t", .app [.ident "c", .ident "t"]])]⟩,
    ⟨[("f", [⟨"f", [.var "X"], .ident "c", [.ident "f", .ident "X"]⟩])]⟩, .empty, [("c", "t")]⟩

/-- An application whose head has to be called to find the constructor. -/
def headTerm : Term := .app [.app [.ident "f", .ident "a"], .ident "b"]

/-- The usual settings without a depth budget, but with a single call. -/
def singleCall : Config := { Config.bare with maxSteps := 1 }

/-- The head is called each time, so a budget of one call is used up by the first reduction. -/
theorem reduction_idempotent_head :
    ((new headProgram singleCall .quiet).reduce headTerm).outcome = .value headTerm ∧
      headProgram.Settled headTerm ∧
      ∃ f, ((((new headProgram singleCall .quiet).reduce headTerm).evaluator.patient 2).reduce
          headTerm).outcome = .failure f ∧ (f.cause = .stepBudget ∨ f.cause = .interrupted) := by
  have hfirst : (new headProgram singleCall .quiet).reduce headTerm = _ :=
    finish_of_iterate 8 rfl (by decide)
  have hvalue : ((new headProgram singleCall .quiet).reduce headTerm).outcome
      = .value headTerm := by
    rw [hfirst]
    rfl
  obtain ⟨hsettled, hagain⟩ :=
    (reduction_idempotent (new headProgram singleCall .quiet)).1 _ _ hvalue
  have hsteps : 2 * ((new headProgram singleCall .quiet).reduce headTerm).evaluator.steps ≤ 2 := by
    rw [hfirst]
    decide
  refine ⟨hvalue, hsettled, (hagain 2 hsteps).1.resolve_left ?_⟩
  rw [hfirst, reduce, finish_of_iterate 6 rfl (by decide)]
  simp [settled]

end Evaluator

end Clausal
