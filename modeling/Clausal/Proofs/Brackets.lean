/-
  Clausal.Proofs.Brackets

  The events of an evaluation as brackets. Replayed as pushes and pops they keep account of the
  open calls (`Event.replay`), and once an operation is over nothing is open. A failure arises
  while some calls are open, is put together from exactly these, and then goes through them from
  the innermost outwards.

  The invariant is `Machine.Bracketed`. As long as nothing has failed, the events replay to the
  calls that the machine holds open (`Machine.Live`). Once something has, the events so far and
  those with which the remaining calls are still to be left make up a list that does not change
  any more (`Machine.due`), and it is the list of the machine in which the failure arose. What one
  move does to the two is said by `Machine.Bracketed.moves`.
-/
import Clausal.Proofs.Budget

namespace Clausal

/-! ## Events as pushes and pops -/

namespace Event

variable {ε : Type}

/-- The depth of the call that an event tells of. -/
def depth : Event ε → Nat
  | .enter depth _ _ => depth
  | .leave depth _ _ => depth

/-- Whether a call is left with a failure. -/
def isFail : Event ε → Bool
  | .leave _ _ (.error _) => true
  | _ => false

/-- The open calls after an event, the innermost first. A call is entered at the depth at which
    it then stands, and the call that is left is the innermost one, at the depth at which it
    stood. -/
def track (calls : List OpenCall) : Event ε → Option (List OpenCall)
  | .enter depth name args =>
    if depth = calls.length + 1 then some (⟨name, args⟩ :: calls) else none
  | .leave depth name _ =>
    match calls with
    | [] => none
    | c :: rest => if depth = rest.length + 1 ∧ name = c.name then some rest else none

/-- The open calls after some events, if these can be replayed. -/
def replay (calls : List OpenCall) (events : List (Event ε)) : Option (List OpenCall) :=
  events.foldlM track calls

/-- The events with which a failure goes through some calls, from the innermost outwards. -/
def closing (f : ε) : List OpenCall → List (Event ε)
  | [] => []
  | c :: rest => .leave (rest.length + 1) c.name (.error f) :: closing f rest

@[simp] theorem replay_cons (calls : List OpenCall) (ev : Event ε) (events : List (Event ε)) :
    replay calls (ev :: events) = (track calls ev).bind (replay · events) :=
  List.foldlM_cons

@[simp] theorem replay_append (calls : List OpenCall) (events events' : List (Event ε)) :
    replay calls (events ++ events') = (replay calls events).bind (replay · events') :=
  List.foldlM_append

theorem track_enter_iff {calls calls' : List OpenCall} {depth : Nat} {name : String}
    {args : List Term} :
    track calls (.enter depth name args : Event ε) = some calls' ↔
      depth = calls.length + 1 ∧ ⟨name, args⟩ :: calls = calls' := by
  rw [track, Option.ite_none_right_eq_some, Option.some_inj]

theorem track_leave_iff {calls calls' : List OpenCall} {depth : Nat} {name : String}
    {result : Except ε Term} :
    track calls (.leave depth name result) = some calls' ↔
      ∃ c, calls = c :: calls' ∧ depth = calls'.length + 1 ∧ name = c.name := by
  cases calls with
  | nil => simp [track]
  | cons c rest =>
    rw [track, Option.ite_none_right_eq_some, Option.some_inj]
    constructor
    · rintro ⟨⟨hdepth, hname⟩, rfl⟩
      exact ⟨c, rfl, hdepth, hname⟩
    · rintro ⟨c', heq, hdepth, hname⟩
      cases heq
      exact ⟨⟨hdepth, hname⟩, rfl⟩

/-- A failure that goes through all open calls leaves none open. -/
theorem replay_closing (f : ε) (calls : List OpenCall) :
    replay calls (closing f calls) = some [] := by
  induction calls with
  | nil => rfl
  | cons c rest ih =>
    have htrack : track (c :: rest) (.leave (rest.length + 1) c.name (.error f)) = some rest :=
      track_leave_iff.2 ⟨c, rfl, rfl, rfl⟩
    rw [closing, replay_cons, htrack]
    exact ih

/-- An open call was entered with its arguments. -/
theorem mem_of_replay {events : List (Event ε)} {calls : List OpenCall}
    (h : replay [] events = some calls) :
    ∀ c ∈ calls, ∃ depth, .enter depth c.name c.args ∈ events := by
  -- On the events, from the back: the last one opens a call or closes one that was open.
  induction events using List.reverseRecOn generalizing calls with
  | nil =>
    cases h
    rintro c ⟨⟩
  | append_singleton earlier ev ih =>
    rw [replay_append] at h
    obtain ⟨between, hbetween, hlast⟩ := Option.bind_eq_some_iff.1 h
    rw [replay_cons] at hlast
    obtain ⟨calls', htrack, hnil⟩ := Option.bind_eq_some_iff.1 hlast
    cases hnil
    have hearlier := ih hbetween
    intro c hc
    have hkept : c ∈ between → ∃ depth, .enter depth c.name c.args ∈ earlier ++ [ev] := by
      intro hmem
      obtain ⟨depth, hdepth⟩ := hearlier c hmem
      exact ⟨depth, List.mem_append_left _ hdepth⟩
    cases ev with
    | enter depth name args =>
      obtain ⟨-, rfl⟩ := track_enter_iff.1 htrack
      rcases List.mem_cons.1 hc with rfl | hc
      · exact ⟨depth, by simp⟩
      · exact hkept hc
    | leave depth name result =>
      obtain ⟨c', rfl, -, -⟩ := track_leave_iff.1 htrack
      exact hkept (List.mem_cons_of_mem _ hc)

/-- The calls that a failure goes through stand no deeper than there are calls. -/
theorem depth_le_of_mem_closing {f : ε} {calls : List OpenCall} {ev : Event ε}
    (h : ev ∈ closing f calls) : ev.depth ≤ calls.length := by
  induction calls with
  | nil => cases h
  | cons c rest ih =>
    rcases List.mem_cons.1 h with rfl | h
    · exact le_rfl
    · exact (ih h).trans (Nat.le_succ _)

end Event

open Event

namespace Machine

variable {program : Program} {config : Config}

/-- How many calls some events leave. -/
def leaves (events : List (Event Failure)) : Nat := events.countP fun ev => !ev.isEnter

@[simp] theorem leaves_enter (depth : Nat) (name : String) (args : List Term)
    (events : List (Event Failure)) :
    leaves (.enter depth name args :: events) = leaves events :=
  List.countP_cons_of_neg Bool.false_ne_true

@[simp] theorem leaves_leave (depth : Nat) (name : String) (result : Except Failure Term)
    (events : List (Event Failure)) :
    leaves (.leave depth name result :: events) = leaves events + 1 :=
  List.countP_cons_of_pos rfl

/-- What is entered and not left is open in the end. -/
theorem length_of_replay {calls calls' : List OpenCall} {events : List (Event Failure)}
    (h : replay calls events = some calls') :
    calls.length + enters events = calls'.length + leaves events := by
  induction events generalizing calls with
  | nil =>
    cases h
    rfl
  | cons ev events ih =>
    -- The first event opens or closes one call, the others are accounted for from there.
    rw [replay_cons] at h
    obtain ⟨between, htrack, hrest⟩ := Option.bind_eq_some_iff.1 h
    have hlen := ih hrest
    cases ev with
    | enter depth name args =>
      obtain ⟨-, rfl⟩ := track_enter_iff.1 htrack
      rw [enters_enter, leaves_enter]
      rw [List.length_cons] at hlen
      omega
    | leave depth name result =>
      obtain ⟨c, rfl, -, -⟩ := track_leave_iff.1 htrack
      rw [enters_leave, leaves_leave, List.length_cons]
      omega

/-! ## Machines in which nothing has failed -/

/-- Nothing has failed so far: the events replay to the open calls, none of them tells of a
    failure, and all of them keep to the depth budget. -/
structure Live (config : Config) (m : Machine) : Prop where
  replayed : replay [] m.events.reverse = some m.calls.calls
  sound : ∀ ev ∈ m.events, ev.isFail = false
  shallow : 0 < config.maxDepth → ∀ ev ∈ m.events, (ev.depth : Int) ≤ config.maxDepth
  room : 0 < config.maxDepth → (m.calls.depth : Int) ≤ config.maxDepth

/-- What is still to be done plays no part. -/
theorem Live.congr {m m' : Machine} (h : m.Live config) (hcalls : m'.calls = m.calls)
    (hevents : m'.events = m.events) : m'.Live config := by
  obtain ⟨hreplayed, hsound, hshallow, hroom⟩ := h
  rw [← hevents, ← hcalls] at hreplayed
  rw [← hevents] at hsound hshallow
  rw [← hcalls] at hroom
  exact ⟨hreplayed, hsound, hshallow, hroom⟩

/-- One more event that is no failure. -/
theorem Live.event {m m' : Machine} {ev : Event Failure} (h : m.Live config)
    (hevents : m'.events = ev :: m.events) (htrack : track m.calls.calls ev = some m'.calls.calls)
    (hsound : ev.isFail = false)
    (hdepth : 0 < config.maxDepth → (ev.depth : Int) ≤ config.maxDepth)
    (hroom : 0 < config.maxDepth → (m'.calls.depth : Int) ≤ config.maxDepth) :
    m'.Live config := by
  refine ⟨?_, ?_, fun hpos => ?_, hroom⟩
  · -- The event is replayed behind the others, on the calls that these have left open.
    rw [hevents, List.reverse_cons, replay_append, h.replayed, Option.bind_some, replay_cons,
      htrack]
    rfl
  · rw [hevents]
    exact List.forall_mem_cons.2 ⟨hsound, h.sound⟩
  · rw [hevents]
    exact List.forall_mem_cons.2 ⟨hdepth hpos, h.shallow hpos⟩

/-- A call that is not refused may be entered. -/
theorem Live.opened {m : Machine} (h : m.Live config) (hrefusal : m.refusal? config = none)
    (name : String) (args : List Term) : (m.opened name args).Live config := by
  -- The call stands one deeper than those that are open, and that is what was asked for.
  have hroom : 0 < config.maxDepth → (m.calls.depth : Int) + 1 ≤ config.maxDepth := by
    intro hpos
    obtain ⟨-, -, hdepth⟩ := refusal?_eq_none_iff.1 hrefusal
    omega
  refine h.event rfl ?_ rfl hroom hroom
  exact track_enter_iff.2 ⟨by rw [m.calls.depth_eq], rfl⟩

/-- The innermost call may be left with a body. -/
theorem Live.leave {m : Machine} (h : m.Live config) {name : String} {args : List Term}
    {calls : List OpenCall} (hcalls : m.calls.calls = ⟨name, args⟩ :: calls) (body : Term)
    (control : Control) (frames : List Frame) :
    (m.leave name (.ok body) control frames).Live config := by
  refine h.event rfl ?_ rfl h.room fun hpos => ?_
  · have hpop : (m.leave name (.ok body) control frames).calls.calls = calls :=
      CallStack.calls_pop_of_cons hcalls
    rw [hpop]
    exact track_leave_iff.2 ⟨⟨name, args⟩, hcalls, CallStack.depth_of_cons hcalls, rfl⟩
  · have hdepth := h.room hpos
    show ((m.calls.depth - 1 : Nat) : Int) ≤ config.maxDepth
    omega

/-! ## Failures on their way out -/

/-- What will have happened once a failure has gone through all the calls that are open. -/
def due (f : Failure) (m : Machine) : List (Event Failure) :=
  m.events.reverse ++ closing f m.calls.calls

/-- A failure is on its way out: what will have happened was settled when it arose. -/
def Failing (config : Config) (f : Failure) (m : Machine) : Prop :=
  ∃ m₀ : Machine, m₀.Live config ∧ m₀.Arises f ∧ m.due f = m₀.due f

theorem Failing.congr {f : Failure} {m m' : Machine} (h : m.Failing config f)
    (hdue : m'.due f = m.due f) : m'.Failing config f := by
  obtain ⟨m₀, hlive, harises, heq⟩ := h
  exact ⟨m₀, hlive, harises, hdue.trans heq⟩

/-- Leaving a call with the failure is what was due next. -/
theorem due_leave {m : Machine} {name : String} {args : List Term} {calls : List OpenCall}
    (hcalls : m.calls.calls = ⟨name, args⟩ :: calls) (f : Failure) (control : Control)
    (frames : List Frame) : (m.leave name (.error f) control frames).due f = m.due f := by
  show (Event.leave m.calls.depth name (.error f) :: m.events).reverse
    ++ closing f m.calls.pop.calls = m.events.reverse ++ closing f m.calls.calls
  rw [CallStack.calls_pop_of_cons hcalls, CallStack.depth_of_cons hcalls, hcalls, closing,
    List.reverse_cons, List.append_assoc, List.singleton_append]

/-! ## The invariant -/

/-- The frames leave the calls that are open, and what happened is in order: nothing has failed,
    or a failure is on its way out. -/
structure Bracketed (config : Config) (m : Machine) : Prop where
  held : heldCalls m.frames = m.calls.calls
  live : m.Busy → m.Live config
  failing : ∀ f, m.control = .abandon f → m.Failing config f

theorem Bracketed.of_live {m : Machine} (hheld : heldCalls m.frames = m.calls.calls)
    (hbusy : m.Busy) (hlive : m.Live config) : m.Bracketed config :=
  ⟨hheld, fun _ => hlive, fun f hf => absurd hf (hbusy f)⟩

theorem Bracketed.of_failing {m : Machine} {f : Failure}
    (hheld : heldCalls m.frames = m.calls.calls) (hcontrol : m.control = .abandon f)
    (hfailing : m.Failing config f) : m.Bracketed config := by
  refine ⟨hheld, fun hbusy => absurd hcontrol (hbusy f), fun f' hf' => ?_⟩
  rw [hcontrol] at hf'
  cases hf'
  exact hfailing

/-- A call that fails is left with the failure, which reports the call itself as well. -/
theorem Live.fail {m : Machine} (h : m.Live config) {name : String} {args : List Term}
    {frames : List Frame} (hcalls : m.calls.calls = ⟨name, args⟩ :: heldCalls frames)
    (cause : Cause) : (m.fail name cause frames).Bracketed config := by
  have hheld : heldCalls frames = m.calls.pop.calls := (CallStack.calls_pop_of_cons hcalls).symm
  exact .of_failing hheld rfl ⟨m, h, .inr ⟨name, cause, rfl⟩, due_leave hcalls _ _ _⟩

/-- Whatever the progress of the innermost call, it is acted on in order. -/
theorem Live.proceed {m : Machine} (h : m.Live config) {name : String} {args : List Term}
    {frames : List Frame} (hcalls : m.calls.calls = ⟨name, args⟩ :: heldCalls frames)
    (goOn : Bool) (progress : Progress) :
    (m.proceed name args goOn frames progress).Bracketed config := by
  cases progress with
  | need arg attempt others =>
    refine .of_live ?_ (by simp [Busy, Machine.proceed]) (h.congr rfl rfl)
    rw [Machine.proceed, heldCalls_call, hcalls]
  | matched body =>
    have hheld : heldCalls frames = m.calls.pop.calls := (CallStack.calls_pop_of_cons hcalls).symm
    refine .of_live hheld ?_ (h.leave hcalls body _ frames)
    cases goOn <;> simp [Busy, Machine.proceed, Machine.leave]
  | stuck => exact h.fail hcalls .noMatchingClause

/-- Every move keeps the brackets in order. -/
theorem Bracketed.moves {m m' : Machine} (h : m.Bracketed config)
    (hmoves : Moves program config m m') : m'.Bracketed config := by
  -- A call that is entered stands above those that the frames below it leave.
  have hopened : ∀ {name args} {frames : List Frame}, heldCalls frames = heldCalls m.frames →
      (m.opened name args).calls.calls = ⟨name, args⟩ :: heldCalls frames := by
    intro name args frames hheld
    rw [hheld, h.held]
    rfl
  cases hmoves with
  | rest => exact h
  | work hbusy hcontrol hheld =>
    exact .of_live (hheld.trans h.held) hcontrol ((h.live hbusy).congr rfl rfl)
  | fault hbusy harises hheld =>
    exact .of_failing (hheld.trans h.held) rfl ⟨m, h.live hbusy, harises, rfl⟩
  | enter hbusy hrefusal hheld =>
    exact ((h.live hbusy).opened hrefusal _ _).proceed (hopened hheld) _ _
  | stray hbusy hrefusal hheld =>
    exact ((h.live hbusy).opened hrefusal _ _).fail (hopened hheld) _
  | resume hbusy hheld => exact (h.live hbusy).proceed (h.held.symm.trans hheld) _ _
  | pass hcontrol hheld =>
    exact .of_failing (hheld.trans h.held) hcontrol ((h.failing _ hcontrol).congr rfl)
  | @unwind f name args frames hcontrol hheld =>
    -- The innermost open call is the one that the topmost frame leaves.
    have hcalls := h.held.symm.trans hheld
    have hheld' : heldCalls frames = m.calls.pop.calls :=
      (CallStack.calls_pop_of_cons hcalls).symm
    exact .of_failing hheld' rfl ((h.failing _ hcontrol).congr (due_leave hcalls f _ _))

theorem Bracketed.reaches {m m' : Machine} (h : m.Bracketed config)
    (hreach : Reaches program config m m') : m'.Bracketed config :=
  hreach.invariant (fun m hm => hm.moves (step_moves program config m)) h

/-! ## Results -/

/-- In the end no call is open. -/
theorem Bracketed.closed {m : Machine} (h : m.Bracketed config) (hframes : m.frames = []) :
    m.calls = .empty := by
  apply CallStack.eq_of_calls
  rw [← h.held, hframes]
  rfl

/-- A failure that has come out has gone through all the calls that were open when it arose. -/
theorem Bracketed.unwound {m : Machine} {f : Failure} (h : m.Bracketed config)
    (hcontrol : m.control = .abandon f) (hframes : m.frames = []) :
    ∃ m₀ : Machine, m₀.Live config ∧ m₀.Arises f ∧ m.events.reverse = m₀.due f := by
  obtain ⟨m₀, hlive, harises, hdue⟩ := h.failing f hcontrol
  refine ⟨m₀, hlive, harises, ?_⟩
  rw [← hdue, due, h.closed hframes, CallStack.calls_empty, closing, List.append_nil]

end Machine

open Machine

/-- The failure that an evaluation came to, if any. -/
def Outcome.failure? : Outcome → Option Failure
  | .failure f => some f
  | _ => none

/-- The failure that running a program came to, if any. -/
def Verdict.failure? : Verdict → Option Failure
  | .failure f => some f
  | _ => none

theorem Evaluation.interpretation_failure? (evaluation : Evaluation) :
    evaluation.interpretation.verdict.failure? = evaluation.outcome.failure? := by
  unfold Evaluation.interpretation
  cases evaluation.outcome <;> rfl

/-- The events end with a failure that goes through all the calls open when it arose. No other
    event tells of a failure, and these calls, the outermost first, are the stack that the
    failure reports. -/
def Unwound (f : Failure) (events : List (Event Failure)) : Prop :=
  ∃ earlier calls, events = earlier ++ closing f calls ∧ replay [] earlier = some calls ∧
    (∀ ev ∈ earlier, ev.isFail = false) ∧
    ∀ err, f = .failed err → err.stack = (calls.map OpenCall.site).reverse

namespace Machine

variable {config : Config}

theorem Live.replay_due {m : Machine} (h : m.Live config) (f : Failure) :
    replay [] (m.due f) = some [] := by
  rw [due, replay_append, h.replayed, Option.bind_some]
  exact replay_closing f _

theorem Live.due_shallow {m : Machine} (h : m.Live config) (f : Failure)
    (hpos : 0 < config.maxDepth) : ∀ ev ∈ m.due f, (ev.depth : Int) ≤ config.maxDepth := by
  intro ev hev
  rcases List.mem_append.1 hev with hev | hev
  · exact h.shallow hpos ev (List.mem_reverse.1 hev)
  · have hdepth := depth_le_of_mem_closing hev
    have hroom := h.room hpos
    rw [m.calls.depth_eq] at hroom
    omega

theorem Live.due_unwound {m : Machine} (h : m.Live config) {f : Failure} (harises : m.Arises f) :
    Unwound f (m.due f) := by
  refine ⟨m.events.reverse, m.calls.calls, rfl, h.replayed, ?_, ?_⟩
  · intro ev hev
    exact h.sound ev (List.mem_reverse.1 hev)
  · -- A failure is put together from the calls that are open when it arises.
    rintro err rfl
    rcases harises with heq | ⟨name, cause, heq⟩
    · cases heq
    · cases heq
      rfl

end Machine

namespace Evaluator

/-- What the events of an operation tell. Every call that is counted is entered and left, at the
    depth at which it stands and within the depth budget, and none stays open; a call is left with
    a failure only if the operation fails. -/
structure Told (before after : Evaluator) (events : List (Event Failure))
    (failure? : Option Failure) : Prop where
  config : after.config = before.config
  entered : before.steps + enters events = after.steps
  left : before.steps + leaves events = after.steps
  replayed : replay [] events = some []
  shallow : 0 < before.config.maxDepth → ∀ ev ∈ events, (ev.depth : Int) ≤ before.config.maxDepth
  closed : after.calls = .empty
  succeeded : failure? = none → ∀ ev ∈ events, ev.isFail = false
  failed : ∀ f, failure? = some f → Unwound f events

/-- A machine that is in order is run to an account that is. -/
theorem finish_told {e : Evaluator} {m : Machine} (hm : m.Bracketed e.config)
    (hcounted : e.steps + enters m.events = m.steps)
    (hends : (e.finish m).outcome ≠ .unfinished) :
    e.Told (e.finish m).evaluator (e.finish m).events (e.finish m).outcome.failure? := by
  rcases e.finish_cases m with hunfinished | ⟨m', r, hreach, hr, -, hfinish⟩
  · exact absurd hunfinished hends
  have hm' := hm.reaches hreach
  -- What is counted is entered, and since nothing stays open it is left as well.
  have hentered : e.steps + enters m'.events.reverse = m'.steps := by
    have henters := hreach.enters
    rw [enters_reverse]
    omega
  have hleft : replay [] m'.events.reverse = some [] →
      e.steps + leaves m'.events.reverse = m'.steps := by
    intro hreplayed
    have hlength := length_of_replay hreplayed
    rw [List.length_nil] at hlength
    omega
  rw [hfinish]
  cases r with
  | ok v =>
    obtain ⟨hcontrol, hframes⟩ := result?_eq_ok_iff.1 hr
    have hclosed := hm'.closed hframes
    have hlive := hm'.live (by simp [Busy, hcontrol])
    have hreplayed : replay [] m'.events.reverse = some [] := by
      rw [hlive.replayed, hclosed, CallStack.calls_empty]
    exact {
      config := rfl
      entered := hentered
      left := hleft hreplayed
      replayed := hreplayed
      shallow := fun hpos ev hev => hlive.shallow hpos ev (List.mem_reverse.1 hev)
      closed := hclosed
      succeeded := fun _ ev hev => hlive.sound ev (List.mem_reverse.1 hev)
      failed := by
        rintro f ⟨⟩ }
  | error f =>
    -- Everything is read off the machine in which the failure arose.
    obtain ⟨hcontrol, hframes⟩ := result?_eq_error_iff.1 hr
    obtain ⟨m₀, hlive, harises, hdue⟩ := hm'.unwound hcontrol hframes
    have hevents : (e.settled m' (.error f)).events = m₀.due f := hdue
    have hreplayed : replay [] m'.events.reverse = some [] := by
      rw [hdue]
      exact hlive.replay_due f
    exact {
      config := rfl
      entered := hentered
      left := hleft hreplayed
      replayed := hreplayed
      shallow := fun hpos => hevents ▸ hlive.due_shallow f hpos
      closed := hm'.closed hframes
      succeeded := by
        rintro ⟨⟩
      failed := by
        rintro f' ⟨⟩
        exact hevents ▸ hlive.due_unwound harises }

/-- An evaluator with no open call starts a machine that is in order. -/
theorem machine_bracketed {e : Evaluator} (hcalls : e.calls = .empty) {control : Control}
    (hbusy : ∀ f, control ≠ .abandon f) : (e.machine control).Bracketed e.config := by
  refine .of_live ?_ hbusy ⟨?_, ?_, ?_, ?_⟩
  · rw [machine, hcalls]
    rfl
  · rw [machine, hcalls]
    rfl
  · rintro ev ⟨⟩
  · rintro _ ev ⟨⟩
  · intro hpos
    rw [machine, hcalls, CallStack.depth_empty]
    omega

theorem reduce_told {e : Evaluator} (hcalls : e.calls = .empty) {t : Term}
    (hends : (e.reduce t).outcome ≠ .unfinished) :
    e.Told (e.reduce t).evaluator (e.reduce t).events (e.reduce t).outcome.failure? :=
  finish_told (machine_bracketed hcalls (by simp)) rfl hends

theorem call_told {e : Evaluator} (hcalls : e.calls = .empty) {name : String} {args : List Term}
    (hends : (e.call name args).outcome ≠ .unfinished) :
    e.Told (e.call name args).evaluator (e.call name args).events
      (e.call name args).outcome.failure? := by
  have hmoves := e.call_machine_moves name args
  exact finish_told ((machine_bracketed hcalls (by simp)).moves hmoves) hmoves.enters.symm hends

/-- An operation that succeeds may be followed by another. -/
theorem Told.trans {e₁ e₂ e₃ : Evaluator} {events events' : List (Event Failure)}
    {failure? : Option Failure} (h : e₁.Told e₂ events none) (h' : e₂.Told e₃ events' failure?) :
    e₁.Told e₃ (events ++ events') failure? where
  config := h'.config.trans h.config
  entered := by
    rw [enters_append, ← h'.entered, ← h.entered]
    omega
  left := by
    rw [leaves, List.countP_append, ← h'.left, ← h.left, leaves, leaves]
    omega
  replayed := by
    rw [replay_append, h.replayed, Option.bind_some]
    exact h'.replayed
  shallow hpos ev hev := by
    rcases List.mem_append.1 hev with hev | hev
    · exact h.shallow hpos ev hev
    · rw [← h.config]
      exact h'.shallow (h.config ▸ hpos) ev hev
  closed := h'.closed
  succeeded hnone ev hev := by
    rcases List.mem_append.1 hev with hev | hev
    · exact h.succeeded rfl ev hev
    · exact h'.succeeded hnone ev hev
  failed f hf := by
    -- What came before is put in front of what the second operation tells of its failure.
    obtain ⟨earlier, calls, rfl, hreplayed, hsound, hstack⟩ := h'.failed f hf
    refine ⟨events ++ earlier, calls, (List.append_assoc _ _ _).symm, ?_, ?_, hstack⟩
    · rw [replay_append, h.replayed, Option.bind_some]
      exact hreplayed
    · intro ev hev
      rcases List.mem_append.1 hev with hev | hev
      · exact h.succeeded rfl ev hev
      · exact hsound ev hev

theorem interpret_told {e : Evaluator} (hcalls : e.calls = .empty)
    (hends : e.interpret.verdict ≠ .unfinished) :
    e.Told e.interpret.evaluator e.interpret.events e.interpret.verdict.failure? := by
  unfold interpret at hends ⊢
  split
  · refine ⟨rfl, rfl, rfl, rfl, ?_, hcalls, ?_, ?_⟩
    · rintro _ ev ⟨⟩
    · rintro _ ev ⟨⟩
    · rintro f ⟨⟩
  · rename_i hfault
    rw [hfault] at hends
    generalize Term.app [.ident e.config.entryName, e.config.seedTerm] = t at hends ⊢
    rcases interpretFrom_eq e t e.config.patience with heq | ⟨v, hv, heq⟩
    · simp only [heq] at hends ⊢
      rw [Evaluation.interpretation_failure?]
      exact reduce_told hcalls (mt Evaluation.interpretation_unfinished.2 hends)
    · -- The first reduction succeeded, so the second begins with no call open.
      simp only [heq] at hends ⊢
      have hfirst := reduce_told hcalls (t := t) (by rw [hv]; simp)
      have hsecond := reduce_told hfirst.closed (mt Evaluation.interpretation_unfinished.2 hends)
      rw [hv] at hfirst
      rw [Evaluation.interpretation_failure?]
      exact hfirst.trans hsecond

/-- **The trace is well bracketed.** For an evaluator with no open call, every reduction, call and
    run of the program that ends tells of each call it counts by one event that enters it and one
    that leaves it, in the order of brackets, and leaves no call open. If it fails, the events end
    with the failure going through the calls that were open when it arose, and these are the stack
    of the failure. -/
theorem trace_well_bracketed (e : Evaluator) (hcalls : e.calls = .empty) :
    (∀ t, (e.reduce t).outcome ≠ .unfinished →
      e.Told (e.reduce t).evaluator (e.reduce t).events (e.reduce t).outcome.failure?) ∧
    (∀ name args, (e.call name args).outcome ≠ .unfinished →
      e.Told (e.call name args).evaluator (e.call name args).events
        (e.call name args).outcome.failure?) ∧
    (e.interpret.verdict ≠ .unfinished →
      e.Told e.interpret.evaluator e.interpret.events e.interpret.verdict.failure?) :=
  ⟨fun _ => reduce_told hcalls, fun _ _ => call_told hcalls, interpret_told hcalls⟩

/-- A call of an unknown function in an argument. -/
def strayTerm : Term := .app [.ident "keep", .app [.ident "stray", .ident "a"]]

/-- How it fails: the function that asked for the argument is open as well. -/
def strayFailure : Failure :=
  .failed ⟨"stray", [OpenCall.site ⟨"keep", [.app [.ident "stray", .ident "a"]]⟩,
    OpenCall.site ⟨"stray", [.ident "a"]⟩], .unknownFunction⟩

theorem trace_well_bracketed_stray :
    ((new keepProgram .bare .quiet).reduce strayTerm).outcome = .failure strayFailure ∧
      (new keepProgram .bare .quiet).Told
        ((new keepProgram .bare .quiet).reduce strayTerm).evaluator
        ((new keepProgram .bare .quiet).reduce strayTerm).events (some strayFailure) := by
  have hreduce : (new keepProgram .bare .quiet).reduce strayTerm = _ :=
    finish_of_iterate 12 rfl (by decide)
  have houtcome : ((new keepProgram .bare .quiet).reduce strayTerm).outcome
      = .failure strayFailure := by
    rw [hreduce]
    rfl
  have htold := (trace_well_bracketed (new keepProgram .bare .quiet) rfl).1 strayTerm
    (by rw [houtcome]; simp)
  rw [houtcome] at htold
  exact ⟨houtcome, htold⟩

end Evaluator

end Clausal
