/-
  Clausal.Proofs.Cutoff

  Budgets and interrupts do nothing but cut a run off. A machine whose calls may be refused goes
  in step with one that nothing hinders, as long as no call is refused
  (`Machine.Reaches.under`). Whether a call is refused depends on two numbers only, how many
  calls were entered before it and the depth at which it would stand (`Config.bar?`), and both
  can be read off the events of the run that nothing hinders. Every call that these events tell
  of was made by a machine on the way (`Machine.Reaches.entered`); at the first one that is
  refused the other machine gives up, and what is still to happen is then settled
  (`Machine.unwinds`).
-/
import Clausal.Proofs.Brackets

namespace Clausal

open Event

/-! ## What a run tells is never taken back -/

/-- The depth at which a call is entered. -/
def Event.entered? {ε : Type} : Event ε → Option Nat
  | .enter depth _ _ => some depth
  | .leave .. => none

/-- The depths at which calls are entered, in order. -/
def enterDepths (events : List (Event Failure)) : List Nat := events.filterMap Event.entered?

/-- Why a call is refused that would be entered at a depth after `i` others. -/
def Config.bar? (config : Config) (s : Signal) (i depth : Nat) : Option Cause :=
  if config.interruptible && (Signal.tick^[i] s).raised then some .interrupted
  else if 0 < config.maxSteps && config.maxSteps ≤ i then some .stepBudget
  else if 0 < config.maxDepth && config.maxDepth < depth then some .depthBudget
  else none

namespace Machine

variable {program : Program} {config free : Config} {s : Signal}

theorem length_enterDepths (events : List (Event Failure)) :
    (enterDepths events).length = enters events := by
  induction events with
  | nil => rfl
  | cons ev events ih =>
    cases ev with
    | enter depth name args =>
      rw [enters_enter, ← ih]
      rfl
    | leave depth name result =>
      rw [enters_leave, ← ih]
      rfl

theorem events_proceed (m : Machine) (name : String) (args : List Term) (goOn : Bool)
    (frames : List Frame) (progress : Progress) :
    m.events <:+ (m.proceed name args goOn frames progress).events := by
  cases progress with
  | need arg attempt others => exact List.suffix_rfl
  | matched body => exact List.suffix_cons _ _
  | stuck => exact List.suffix_cons _ _

/-- A move adds to the events. -/
theorem Moves.events {m m' : Machine} (h : Moves program config m m') : m.events <:+ m'.events := by
  cases h with
  | rest => exact List.suffix_rfl
  | work _ _ _ => exact List.suffix_rfl
  | fault _ _ _ => exact List.suffix_rfl
  | @enter name args _ _ _ _ _ _ =>
    have hopened : m.events <:+ (m.opened name args).events := List.suffix_cons _ _
    exact hopened.trans (events_proceed _ _ _ _ _ _)
  | stray _ _ _ => exact (List.suffix_cons _ _).trans (List.suffix_cons _ _)
  | resume _ _ => exact events_proceed _ _ _ _ _ _
  | pass _ _ => exact List.suffix_rfl
  | unwind _ _ => exact List.suffix_cons _ _

theorem Reaches.events {m m' : Machine} (h : Reaches program config m m') :
    m.events <:+ m'.events :=
  h.invariant (P := fun x => m.events <:+ x.events)
    (fun x hx => hx.trans (step_moves program config x).events) List.suffix_rfl

/-- The depths at which a machine has entered calls, in order. -/
def depths (m : Machine) : List Nat := enterDepths m.events.reverse

/-- A call that was told of stays where it stands among the others. -/
theorem Reaches.depths {m m' : Machine} (h : Reaches program config m m') {i depth : Nat}
    (hi : m.depths[i]? = some depth) : m'.depths[i]? = some depth := by
  have hinitial : m.depths <+: m'.depths := (List.reverse_prefix.2 h.events).filterMap _
  obtain ⟨hlt, rfl⟩ := List.getElem?_eq_some_iff.1 hi
  exact List.prefix_iff_getElem?.1 hinitial i hlt

@[simp] theorem depths_leave (m : Machine) (name : String) (result : Except Failure Term)
    (control : Control) (frames : List Frame) :
    (m.leave name result control frames).depths = m.depths := by
  simp [depths, enterDepths, leave, Event.entered?]

@[simp] theorem depths_proceed (m : Machine) (name : String) (args : List Term) (goOn : Bool)
    (frames : List Frame) (progress : Progress) :
    (m.proceed name args goOn frames progress).depths = m.depths := by
  cases progress with
  | need arg attempt others => rfl
  | matched body => exact depths_leave _ _ _ _ _
  | stuck => exact depths_leave _ _ _ _ _

@[simp] theorem depths_opened (m : Machine) (name : String) (args : List Term) :
    (m.opened name args).depths = m.depths ++ [m.calls.depth + 1] := by
  simp [depths, enterDepths, opened, Event.entered?]

/-! ## Calls that are told of -/

/-- A call that is not refused is told of. -/
theorem depths_call {m : Machine} (hrefusal : m.refusal? config = none) (name : String)
    (args : List Term) (goOn : Bool) (frames : List Frame) :
    (m.call program config name args goOn frames).depths = m.depths ++ [m.calls.depth + 1] := by
  simp only [call, hrefusal]
  split
  · rw [depths_proceed, depths_opened]
  · rw [fail, depths_leave, depths_opened]

/-! ## The same machine with another interrupt -/

/-- The machine with the interrupt as it is once it was let come nearer by every call. -/
def under (s : Signal) (m : Machine) : Machine := { m with signal := Signal.tick^[m.steps] s }

theorem Calls.under {m : Machine} {name : String} {args : List Term} {frames : List Frame}
    (h : m.Calls program name args frames) (s : Signal) :
    (m.under s).Calls program name args frames :=
  ⟨h.control, h.frames, h.function⟩

theorem under_opened (s : Signal) (m : Machine) (name : String) (args : List Term) :
    (m.opened name args).under s = (m.under s).opened name args := by
  simp only [under, opened, Function.iterate_succ_apply']

theorem under_proceed (s : Signal) (m : Machine) (name : String) (args : List Term) (goOn : Bool)
    (frames : List Frame) (progress : Progress) :
    (m.proceed name args goOn frames progress).under s
      = (m.under s).proceed name args goOn frames progress := by
  cases progress <;> rfl

theorem under_reduceTerm (s : Signal) (m : Machine) (t : Term) :
    (m.reduceTerm t).under s = (m.under s).reduceTerm t := by
  unfold reduceTerm
  split <;> rfl

theorem under_abandonFrame (s : Signal) (m : Machine) (f : Failure) :
    (m.abandonFrame f).under s = (m.under s).abandonFrame f := by
  obtain ⟨control, frames, calls, steps, signal, events⟩ := m
  cases frames with
  | nil => rfl
  | cons frame frames => cases frame <;> rfl

/-- The step makes no call, so it heeds neither budgets nor the interrupt and enters nothing. -/
def Heedless (program : Program) (m : Machine) : Prop :=
  ∀ (free config : Config) (s : Signal),
    (m.under s).step program config = (m.step program free).under s ∧
      (m.step program free).depths = m.depths

theorem heedless_reduce {m : Machine} {t : Term} (h : m.control = .reduce t) :
    m.Heedless program := by
  intro free config s
  rw [step_reduce h, step_reduce (m := m.under s) h, under_reduceTerm]
  refine ⟨rfl, ?_⟩
  unfold reduceTerm
  split <;> rfl

theorem heedless_abandon {m : Machine} {f : Failure} (h : m.control = .abandon f) :
    m.Heedless program := by
  intro free config s
  rw [step_abandon h, step_abandon (m := m.under s) h, under_abandonFrame]
  refine ⟨rfl, ?_⟩
  unfold abandonFrame
  split
  · rfl
  · rfl
  · exact depths_leave _ _ _ _ _

/-- A value is handed to a frame without a call being made, unless it is the name of a function
    and the head of an application waits for it. -/
theorem calls_or_heedless_give {m : Machine} {value : Term} (h : m.control = .give value) :
    (∃ name args frames, m.Calls program name args frames) ∨ m.Heedless program := by
  cases hframes : m.frames with
  | nil =>
    right
    intro free config s
    rw [step_of_result (result?_eq_ok_iff.2 ⟨h, hframes⟩),
      step_of_result (m := m.under s) (result?_eq_ok_iff.2 ⟨h, hframes⟩)]
    exact ⟨rfl, rfl⟩
  | cons frame frames =>
    cases frame with
    | call name args attempt others goOn =>
      right
      intro free config s
      rw [step_give_call h hframes, step_give_call (m := m.under s) h hframes, under_proceed]
      exact ⟨rfl, depths_proceed _ _ _ _ _ _⟩
    | head elems =>
      -- Only here can a call be made, and only if the head is the name of a function.
      by_cases hname : ∃ name, value = .ident name
      · obtain ⟨name, rfl⟩ := hname
        cases hvalue : program.isValueHead name with
        | false => exact .inl ⟨name, elems.tail, frames, h, ⟨elems, hframes, rfl⟩, hvalue⟩
        | true =>
          right
          intro free config s
          rw [step_give_constructor h hframes hvalue,
            step_give_constructor (m := m.under s) h hframes hvalue]
          exact ⟨rfl, rfl⟩
      · right
        intro free config s
        have hvalue := not_exists.1 hname
        rw [step_give_malformed h hframes hvalue,
          step_give_malformed (m := m.under s) h hframes hvalue]
        exact ⟨rfl, rfl⟩

/-- A step makes a call, or it is heedless. -/
theorem calls_or_heedless (program : Program) (m : Machine) :
    (∃ name args frames, m.Calls program name args frames) ∨ m.Heedless program := by
  cases h : m.control with
  | reduce t => exact .inr (heedless_reduce h)
  | abandon f => exact .inr (heedless_abandon h)
  | give value => exact calls_or_heedless_give h

/-! ## In step until a call is refused -/

theorem refusal?_under (config : Config) (s : Signal) (m : Machine) :
    (m.under s).refusal? config = config.bar? s m.steps (m.calls.depth + 1) := by
  have hdepth : config.maxDepth ≤ m.calls.depth ↔
      config.maxDepth < ((m.calls.depth + 1 : Nat) : Int) := by omega
  show (if config.interruptible && (Signal.tick^[m.steps] s).raised then some Cause.interrupted
    else if 0 < config.maxSteps && config.maxSteps ≤ m.steps then some .stepBudget
    else if 0 < config.maxDepth && config.maxDepth ≤ m.calls.depth then some .depthBudget
    else none) = config.bar? s m.steps (m.calls.depth + 1)
  rw [Config.bar?, decide_eq_decide.2 hdepth]

/-- A call that is not refused is the call that nothing hinders. -/
theorem call_under {m : Machine} (hfree : m.Unhindered free)
    (hbar : config.bar? s m.steps (m.calls.depth + 1) = none) (name : String) (args : List Term)
    (goOn : Bool) (frames : List Frame) :
    (m.under s).call program config name args goOn frames
      = (m.call program free name args goOn frames).under s := by
  rw [← refusal?_under] at hbar
  simp only [call, hbar, hfree.not_refused, ← under_opened]
  split
  · rw [under_proceed]
  · rfl

/-- A call that is refused is given up with the calls that are open. -/
theorem call_barred {m : Machine} {cause : Cause}
    (hbar : config.bar? s m.steps (m.calls.depth + 1) = some cause) (name : String)
    (args : List Term) (goOn : Bool) (frames : List Frame) :
    (m.under s).call program config name args goOn frames
      = { m.under s with control := .abandon (m.failure name cause), frames := frames } := by
  rw [← refusal?_under] at hbar
  exact call_of_refusal hbar name args goOn frames

/-- A machine that has counted the calls it tells of. -/
def Counted (m : Machine) : Prop := m.depths.length = m.steps

theorem Counted.reaches {m m' : Machine} (h : m.Counted) (hreach : Reaches program config m m') :
    m'.Counted := by
  -- Both numbers grow by the calls that are entered on the way.
  have henters := hreach.enters
  simp only [Counted, depths, length_enterDepths, enters_reverse] at h ⊢
  omega

/-- As long as no call is refused, a machine goes in step with one that nothing hinders. -/
theorem Reaches.under {m₀ m : Machine} (hfree : m₀.Unhindered free) (hcounted : m₀.Counted)
    (h : Reaches program free m₀ m)
    (hopen : ∀ i depth, m.depths[i]? = some depth → config.bar? s i depth = none) :
    Reaches program config (m₀.under s) (m.under s) := by
  induction h with
  | refl => exact .refl _
  | @tail m m' hreach hstep ih =>
    have hnext : Reaches program free m m' := .single hstep
    have hsame : Reaches program config (m₀.under s) (m.under s) :=
      ih fun i depth hi => hopen i depth (hnext.depths hi)
    refine hsame.tail ?_
    rcases calls_or_heedless program m with ⟨name, args, frames, hcalls⟩ | hheedless
    · -- The call is the last one told of, so it is among those that are not refused.
      have hm : m.Unhindered free := hfree.reaches hreach
      have hlast : m'.depths[m.steps]? = some (m.calls.depth + 1) := by
        rw [← hstep, hcalls.step, depths_call hm.not_refused, ← hcounted.reaches hreach,
          List.getElem?_concat_length]
      rw [(hcalls.under s).step, call_under hm (hopen _ _ hlast), ← hcalls.step, hstep]
    · rw [(hheedless free config s).1, hstep]

/-- Every call that the events tell of was made by a machine on the way. -/
theorem Reaches.entered {m₀ m : Machine} (hfree : m₀.Unhindered free) (hcounted : m₀.Counted)
    (hnone : m₀.depths = []) (h : Reaches program free m₀ m) {i depth : Nat}
    (hi : m.depths[i]? = some depth) :
    ∃ m₁ name args frames, Reaches program free m₀ m₁ ∧ Reaches program free m₁ m ∧
      m₁.Calls program name args frames ∧ m₁.steps = i ∧ m₁.calls.depth + 1 = depth := by
  induction h with
  | refl => simp [hnone] at hi
  | @tail m m' hreach hstep ih =>
    -- The call was told of before the last step, or it is the one that this step makes.
    by_cases hbefore : m.depths[i]? = some depth
    · obtain ⟨m₁, name, args, frames, hto, hfrom, hcalls⟩ := ih hbefore
      exact ⟨m₁, name, args, frames, hto, hfrom.tail hstep, hcalls⟩
    · rcases calls_or_heedless program m with ⟨name, args, frames, hcalls⟩ | hheedless
      · rw [← hstep, hcalls.step, depths_call (hfree.reaches hreach).not_refused,
          List.getElem?_append] at hi
        split at hi
        · exact absurd hi hbefore
        · rename_i hlength
          obtain ⟨hlast, hdepth⟩ := List.getElem?_eq_some_iff.1 hi
          have hsteps : m.depths.length = m.steps := hcounted.reaches hreach
          rw [List.length_singleton] at hlast
          rw [List.getElem_singleton] at hdepth
          exact ⟨m, name, args, frames, hreach, .single hstep, hcalls, by omega, hdepth⟩
      · rw [← hstep, (hheedless free free .quiet).2] at hi
        exact absurd hi hbefore

/-! ## Giving up -/

/-- Once a machine gives up, it goes through the calls that are open and does no more. -/
theorem unwinds (program : Program) (config : Config) {m : Machine} {f : Failure}
    (hcontrol : m.control = .abandon f) (hheld : heldCalls m.frames = m.calls.calls) :
    ∃ m', Reaches program config m m' ∧ m'.result? = some (.error f) ∧ m'.steps = m.steps ∧
      m'.events.reverse = m.due f := by
  -- On the frames: each of them is given up, and what is due stays the same.
  generalize hframes : m.frames = frames at hheld
  induction frames generalizing m with
  | nil =>
    refine ⟨m, .refl m, result?_eq_error_iff.2 ⟨hcontrol, hframes⟩, rfl, ?_⟩
    rw [due, ← hheld, heldCalls_nil, closing, List.append_nil]
  | cons frame frames ih =>
    cases frame with
    | head elems =>
      have hstep : m.step program config = { m with frames := frames } := by
        rw [step_abandon hcontrol, abandonFrame, hframes]
      obtain ⟨m', hreach, hr, hsteps, hevents⟩ :=
        ih (m := { m with frames := frames }) hcontrol rfl hheld
      exact ⟨m', .of_step (hstep ▸ hreach), hr, hsteps, hevents⟩
    | call name args attempt others goOn =>
      have hcalls : m.calls.calls = ⟨name, args⟩ :: heldCalls frames := hheld.symm
      have hstep : m.step program config = m.leave name (.error f) (.abandon f) frames := by
        rw [step_abandon hcontrol, abandonFrame, hframes]
      have hheld' : heldCalls frames = m.calls.pop.calls :=
        (CallStack.calls_pop_of_cons hcalls).symm
      obtain ⟨m', hreach, hr, hsteps, hevents⟩ :=
        ih (m := m.leave name (.error f) (.abandon f) frames) rfl rfl hheld'
      refine ⟨m', .of_step (hstep ▸ hreach), hr, hsteps, ?_⟩
      rw [hevents, due_leave hcalls]

/-- A run without a step budget ends within the patience if its calls do, and a step budget is
    never exceeded. -/
theorem Reaches.within_horizon {m₀ m : Machine} (h : Reaches program config m₀ m)
    (hstart : 0 < config.maxSteps → (m₀.steps : Int) ≤ config.maxSteps)
    (hle : m.steps ≤ config.patience) : m.steps ≤ config.horizon := by
  unfold Config.horizon
  split
  · rename_i hbudget
    have hbound : (m.steps : Int) ≤ config.maxSteps :=
      h.invariant (P := fun x => (x.steps : Int) ≤ config.maxSteps)
        (fun x hx => (step_moves program config x).steps_le hbudget hx) (hstart hbudget)
    omega
  · exact hle

theorem Reaches.steps_le_horizon {m₀ m : Machine} (h : Reaches program config m₀ m)
    (hzero : m₀.steps = 0) (hle : m.steps ≤ config.patience) : m.steps ≤ config.horizon :=
  h.within_horizon (by omega) hle

end Machine

open Machine

/-! ## Evaluations that are cut off -/

/-- The two came to the same in the same way. -/
structure Evaluation.Agrees (part whole : Evaluation) : Prop where
  outcome : part.outcome = whole.outcome
  steps : part.evaluator.steps = whole.evaluator.steps
  events : part.events = whole.events

/-- One evaluation is the beginning of another: after some calls it fails, and up to where the
    failure goes through the open calls it tells what the other one tells. -/
structure Evaluation.CutOff (part whole : Evaluation) (steps : Nat) (cause : Cause) : Prop where
  steps : part.evaluator.steps = steps
  failed : ∃ f earlier calls, part.outcome = .failure f ∧ f.cause = cause ∧
    part.events = earlier ++ closing f calls ∧ (∀ ev ∈ earlier, ev.isFail = false) ∧
    earlier <+: whole.events

namespace Evaluator

variable {program : Program} {free config : Config} {s : Signal} {t : Term}

/-- A reduction that nothing hinders and that ends is the account of a result. -/
theorem reduce_free (hsteps : free.maxSteps ≤ 0)
    (hends : ((new program free .quiet).reduce t).outcome ≠ .unfinished) :
    ∃ m r, Reaches program free ((new program free .quiet).machine (.reduce t)) m ∧
      m.result? = some r ∧ m.steps ≤ free.patience ∧
      (new program free .quiet).reduce t = (new program free .quiet).settled m r := by
  rcases (new program free .quiet).finish_cases
    ((new program free .quiet).machine (.reduce t)) with hun | ⟨m, r, hreach, hr, hle, hfinish⟩
  · exact absurd hun hends
  · have hhorizon : free.horizon = free.patience := if_neg (by omega)
    refine ⟨m, r, hreach, hr, ?_, hfinish⟩
    simpa [new, machine, hhorizon] using hle

/-- An evaluation none of whose calls is refused is not affected. -/
theorem reduce_agrees (config : Config) (hsteps : free.maxSteps ≤ 0) (hdepth : free.maxDepth ≤ 0)
    (hpatience : config.patience = free.patience)
    (hends : ((new program free .quiet).reduce t).outcome ≠ .unfinished)
    (hopen : ∀ i depth,
      (enterDepths ((new program free .quiet).reduce t).events)[i]? = some depth →
        config.bar? s i depth = none) :
    ((new program config s).reduce t).Agrees ((new program free .quiet).reduce t) := by
  obtain ⟨m, r, hreach, hr, hle, hwhole⟩ := reduce_free hsteps hends
  rw [hwhole] at hopen ⊢
  have hcounted : ((new program free .quiet).machine (.reduce t)).Counted := rfl
  have hunder : Reaches program config ((new program config s).machine (.reduce t)) (m.under s) :=
    hreach.under ⟨hsteps, hdepth, rfl⟩ hcounted hopen
  have hpart : (new program config s).reduce t = (new program config s).settled (m.under s) r :=
    finish_of_reaches hunder hr (hunder.steps_le_horizon rfl (hpatience ▸ hle))
  rw [hpart]
  exact ⟨rfl, rfl, rfl⟩

/-- An evaluation is cut off at the first call that is refused. -/
theorem reduce_cutOff (config : Config) (hsteps : free.maxSteps ≤ 0) (hdepth : free.maxDepth ≤ 0)
    (hpatience : config.patience = free.patience)
    (hends : ((new program free .quiet).reduce t).outcome ≠ .unfinished)
    {i depth : Nat} {cause : Cause}
    (hi : (enterDepths ((new program free .quiet).reduce t).events)[i]? = some depth)
    (hbar : config.bar? s i depth = some cause)
    (hbefore : ∀ i' < i, ∀ depth',
      (enterDepths ((new program free .quiet).reduce t).events)[i']? = some depth' →
        config.bar? s i' depth' = none) :
    ((new program config s).reduce t).CutOff ((new program free .quiet).reduce t) i cause := by
  obtain ⟨m, r, hreach, -, hle, hwhole⟩ := reduce_free hsteps hends
  rw [hwhole] at hi hbefore ⊢
  have hfree : ((new program free .quiet).machine (.reduce t)).Unhindered free :=
    ⟨hsteps, hdepth, rfl⟩
  have hcounted : ((new program free .quiet).machine (.reduce t)).Counted := rfl
  obtain ⟨m₁, name, args, frames, hto, hfrom, hcalls, rfl, rfl⟩ :=
    hreach.entered hfree hcounted rfl hi
  have hstart : ((new program free .quiet).machine (.reduce t)).Bracketed free :=
    machine_bracketed (e := new program free .quiet) rfl (by simp)
  have hbracketed : m₁.Bracketed free := hstart.reaches hto
  -- Up to the machine that makes the call nothing is refused.
  have hunder : Reaches program config ((new program config s).machine (.reduce t))
      (m₁.under s) := by
    refine hto.under hfree hcounted fun i' depth' hi' => ?_
    obtain ⟨hlt, -⟩ := List.getElem?_eq_some_iff.1 hi'
    have hcount : m₁.depths.length = m₁.steps := hcounted.reaches hto
    exact hbefore i' (by omega) depth' (hfrom.depths hi')
  -- There the machine gives up, and goes through the calls that are open.
  have hstep : (m₁.under s).step program config
      = { m₁.under s with control := .abandon (m₁.failure name cause), frames := frames } := by
    rw [(hcalls.under s).step, call_barred hbar]
  obtain ⟨m₂, hreach₂, hr₂, hsteps₂, hevents₂⟩ := unwinds program config
    (m := { m₁.under s with control := .abandon (m₁.failure name cause), frames := frames }) rfl
    (hcalls.held.trans hbracketed.held)
  have hall : Reaches program config ((new program config s).machine (.reduce t)) m₂ :=
    hunder.trans (.of_step (hstep ▸ hreach₂))
  have hle₂ : m₂.steps ≤ config.patience := by
    rw [hsteps₂, hpatience]
    exact hfrom.steps_le.trans hle
  have hpart : (new program config s).reduce t
      = (new program config s).settled m₂ (.error (m₁.failure name cause)) :=
    finish_of_reaches hall hr₂ (hall.steps_le_horizon rfl hle₂)
  rw [hpart]
  refine ⟨hsteps₂, _, m₁.events.reverse, m₁.calls.calls, rfl, rfl, hevents₂, ?_, ?_⟩
  · intro ev hev
    exact (hbracketed.live hcalls.busy).sound ev (List.mem_reverse.1 hev)
  · exact List.reverse_prefix.2 hfrom.events

/-! ## Budgets -/

/-- The `j`th call, at a depth, is past a step budget or a depth budget. A budget that is not
    positive is none. -/
def Exceeds (maxSteps maxDepth : Int) (j depth : Nat) : Prop :=
  0 < maxSteps ∧ maxSteps < j ∨ 0 < maxDepth ∧ maxDepth < depth

theorem bar?_quiet (config : Config) (i depth : Nat) :
    config.bar? .quiet i depth =
      if 0 < config.maxSteps ∧ config.maxSteps < (i + 1 : Nat) then some .stepBudget
      else if 0 < config.maxDepth ∧ config.maxDepth < depth then some .depthBudget
      else none := by
  have hquiet : (Signal.tick^[i] .quiet).raised = false := by
    rw [Function.iterate_fixed (by rfl) i]
    rfl
  have hcount : config.maxSteps ≤ i ↔ config.maxSteps < (i + 1 : Nat) := by omega
  rw [Config.bar?, hquiet, Bool.and_false, if_neg Bool.false_ne_true]
  simp only [Bool.and_eq_true, decide_eq_true_eq, hcount]

theorem bar?_of_not_exceeds {config : Config} {i depth : Nat}
    (h : ¬ Exceeds config.maxSteps config.maxDepth (i + 1) depth) :
    config.bar? .quiet i depth = none := by
  obtain ⟨hcount, hdepth⟩ := not_or.1 h
  rw [bar?_quiet, if_neg hcount, if_neg hdepth]

/-- A call that is past both budgets is refused because of the steps. -/
theorem bar?_of_exceeds {config : Config} {i depth : Nat}
    (h : Exceeds config.maxSteps config.maxDepth (i + 1) depth) :
    config.bar? .quiet i depth =
      some (if 0 < config.maxSteps ∧ config.maxSteps < (i + 1 : Nat) then .stepBudget
        else .depthBudget) := by
  rw [bar?_quiet]
  by_cases hcount : 0 < config.maxSteps ∧ config.maxSteps < (i + 1 : Nat)
  · rw [if_pos hcount, if_pos hcount]
  · rw [if_neg hcount, if_neg hcount, if_pos (h.resolve_left hcount)]

/-! ## Interrupts -/

/-- An interrupt that is raised by the `k`th call is pending from then on. -/
theorem tick_iterate {k : Nat} (hk : 0 < k) (i : Nat) :
    Signal.tick^[i] ⟨false, k⟩ = if i < k then ⟨false, k - i⟩ else ⟨true, 0⟩ := by
  induction i with
  | zero => simp [hk]
  | succ i ih =>
    rw [Function.iterate_succ_apply', ih]
    -- Before the `k`th call the alarm counts down, with it the signal is raised and stays so.
    by_cases hlast : i + 1 < k
    · rw [if_pos (by omega), if_pos hlast]
      obtain ⟨n, hn⟩ : ∃ n, k - i = n + 2 := ⟨k - i - 2, by omega⟩
      rw [hn, show k - (i + 1) = n + 1 by omega]
      rfl
    · rw [if_neg hlast]
      by_cases hnow : i < k
      · rw [if_pos hnow, show k - i = 1 by omega]
        rfl
      · rw [if_neg hnow]
        rfl

theorem bar?_interrupt (config : Config) (hinterruptible : config.interruptible = true)
    (hsteps : config.maxSteps ≤ 0) (hdepth : config.maxDepth ≤ 0) {k : Nat} (hk : 0 < k)
    (i depth : Nat) :
    config.bar? ⟨false, k⟩ i depth = if i < k then none else some .interrupted := by
  have hs : ¬ 0 < config.maxSteps := by omega
  have hd : ¬ 0 < config.maxDepth := by omega
  rw [Config.bar?, tick_iterate hk, hinterruptible]
  by_cases hi : i < k
  · simp [hi, hs, hd]
  · simp [hi]

/-- **Budgets and interrupts are pure cutoffs.** Take a reduction on a fresh evaluator without
    budgets that ends. With budgets, it is the same as long as no call exceeds them; otherwise it
    is cut off at the first call that does, for want of steps if the step budget is exceeded and of
    depth if not. An interrupt that is raised while the `k`th call is entered changes nothing if
    there is no further call, and cuts the reduction off after `k` calls if there is. -/
theorem limits_only_cut_off (program : Program) (free : Config) (hsteps : free.maxSteps ≤ 0)
    (hdepth : free.maxDepth ≤ 0) (t : Term) (whole : Evaluation)
    (hwhole : (new program free .quiet).reduce t = whole) (hends : whole.outcome ≠ .unfinished) :
    (∀ maxSteps maxDepth : Int, ∀ part,
      (new program { free with maxSteps := maxSteps, maxDepth := maxDepth } .quiet).reduce t
        = part →
      ((∀ j depth, (enterDepths whole.events)[j]? = some depth →
        ¬ Exceeds maxSteps maxDepth (j + 1) depth) → part.Agrees whole) ∧
      ∀ j depth, (enterDepths whole.events)[j]? = some depth →
        Exceeds maxSteps maxDepth (j + 1) depth →
        (∀ i < j, ∀ depth', (enterDepths whole.events)[i]? = some depth' →
          ¬ Exceeds maxSteps maxDepth (i + 1) depth') →
        part.CutOff whole j
          (if 0 < maxSteps ∧ maxSteps < (j + 1 : Nat) then .stepBudget else .depthBudget)) ∧
    ∀ k, 1 ≤ k → ∀ part,
      (new program { free with interruptible := true } ⟨false, k⟩).reduce t = part →
      (enters whole.events ≤ k → part.Agrees whole) ∧
      (k < enters whole.events → part.CutOff whole k .interrupted) := by
  subst hwhole
  refine ⟨?_, ?_⟩
  · rintro maxSteps maxDepth part rfl
    refine ⟨fun hnone => ?_, fun j depth hj hexceeds hbefore => ?_⟩
    · refine reduce_agrees _ hsteps hdepth ?_ hends fun i depth hi => ?_
      · rfl
      · exact bar?_of_not_exceeds (hnone i depth hi)
    · refine reduce_cutOff _ hsteps hdepth ?_ hends hj ?_ fun i hi depth' hdepth' => ?_
      · rfl
      · exact bar?_of_exceeds hexceeds
      · exact bar?_of_not_exceeds (hbefore i hi depth' hdepth')
  · rintro k hk part rfl
    have hbar := bar?_interrupt { free with interruptible := true } rfl hsteps hdepth hk
    refine ⟨fun hle => ?_, fun hlt => ?_⟩
    · refine reduce_agrees _ hsteps hdepth ?_ hends fun i depth hi => ?_
      · rfl
      · obtain ⟨hi, -⟩ := List.getElem?_eq_some_iff.1 hi
        rw [length_enterDepths] at hi
        rw [hbar, if_pos (by omega)]
    · -- The call after the `k`th is the first to find the interrupt pending.
      rw [← length_enterDepths] at hlt
      have hnext := List.getElem?_eq_getElem hlt
      refine reduce_cutOff _ hsteps hdepth ?_ hends hnext ?_ fun i hi depth' _ => ?_
      · rfl
      · rw [hbar, if_neg (lt_irrefl k)]
      · rw [hbar, if_pos hi]

/-- A call in the argument of another. -/
def keepTwice : Term := .app [.ident "keep", .app [.ident "keep", .ident "a"]]

theorem limits_only_cut_off_keep :
    ((new keepProgram .bare .quiet).reduce keepTwice).outcome = .value (.ident "a") ∧
      ((new keepProgram { Config.bare with maxSteps := 0, maxDepth := 1 } .quiet).reduce
        keepTwice).CutOff ((new keepProgram .bare .quiet).reduce keepTwice) 1 .depthBudget ∧
      ((new keepProgram { Config.bare with interruptible := true } ⟨false, 1⟩).reduce
        keepTwice).CutOff ((new keepProgram .bare .quiet).reduce keepTwice) 1 .interrupted := by
  have hreduce : (new keepProgram .bare .quiet).reduce keepTwice = _ :=
    finish_of_iterate 12 rfl (by decide)
  have houtcome : ((new keepProgram .bare .quiet).reduce keepTwice).outcome
      = .value (.ident "a") := by
    rw [hreduce]
    rfl
  have hdepths : enterDepths ((new keepProgram .bare .quiet).reduce keepTwice).events
      = [1, 2] := by
    rw [hreduce]
    rfl
  obtain ⟨hbudgets, hinterrupt⟩ := limits_only_cut_off keepProgram .bare (by decide) (by decide)
    keepTwice _ rfl (by rw [houtcome]; simp)
  refine ⟨houtcome, ?_, ?_⟩
  · refine (hbudgets 0 1 _ rfl).2 1 2 (by rw [hdepths]; rfl) (.inr (by decide)) ?_
    intro i hi depth hdepth
    obtain rfl : i = 0 := by omega
    rw [hdepths] at hdepth
    cases hdepth
    rintro (h | h)
    · exact absurd h (by decide)
    · exact absurd h (by decide)
  · refine (hinterrupt 1 le_rfl _ rfl).2 ?_
    rw [← length_enterDepths, hdepths]
    decide

end Evaluator

end Clausal
