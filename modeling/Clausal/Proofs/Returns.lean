/-
  Clausal.Proofs.Returns

  What the calls of an evaluation return, call by call. `Program.Returns` says without a machine
  which body a call comes to, and `Program.Accounts` holds an event against it: a call is left with
  a body only if it was the innermost open one and returns that body.

  A machine only learns what a call returns once its arguments have been evaluated, so the invariant
  has to say what each frame waits for. `Machine.Awaits` reads the frames so: whatever a term that
  is being reduced evaluates to, the frames above which it stands are right to be handed it.
  Together with a property of terms that calls keep (`Program.Keeps`) this is `Machine.Sound`, which
  a step preserves (`Sound.step`) and hence a whole evaluation (`Sound.reaches`).
-/
import Clausal.Proofs.Brackets

namespace Clausal

open Event

/-! ## What a call returns -/

namespace Program

/-- A call of a function with some arguments returns a body. -/
def Returns (program : Program) (name : String) (args : List Term) (body : Term) : Prop :=
  ∃ clauses, program.clauses.get? name = some clauses ∧
    Progress.Leads program.Evaluates args (Progress.start args clauses) body

/-- What a call returns is the body of the clause that is selected, with the values of its
    variables put in. -/
theorem Returns.selects {program : Program} {name : String} {args : List Term} {body : Term}
    (h : program.Returns name args body) :
    ∃ earlier c later values, program.clauses.get? name = some (earlier ++ c :: later) ∧
      values.length ≤ args.length ∧ Pointwise program.Evaluates args values ∧
      Selects earlier c args.length values ∧ body = c.instantiate values := by
  obtain ⟨clauses, hclauses, hleads⟩ := h
  obtain ⟨earlier, c, later, values, rfl, hlen, hvalues, hselects, hbody⟩ :=
    hleads.selects fun t v w (hv : program.Evaluates t v) hw => hv.unique hw
  exact ⟨earlier, c, later, values, hclauses, hlen, hvalues, hselects, hbody⟩

/-- A property of terms that is handed down to parts, and that calls keep. -/
structure Keeps (program : Program) (P : Term → Prop) : Prop where
  inner : ∀ {t : Term}, P (.group t) → P t
  element : ∀ {xs : List Term}, P (.app xs) → ∀ x ∈ xs, P x
  call : ∀ {name : String} {args : List Term} {body : Term}, (∀ x ∈ args, P x) →
    program.Returns name args body → P body

/-! ## Events -/

/-- An event that comes behind some others is accounted for. A call is entered with arguments that
    have the property; if it is left with a body, then the body has it, and it is what the innermost
    open call returns. -/
def Accounts (program : Program) (P : Term → Prop) (before : List (Event Failure)) :
    Event Failure → Prop
  | .enter _ _ args => ∀ x ∈ args, P x
  | .leave _ name (.ok body) =>
    P body ∧ ∃ args calls, replay [] before = some (⟨name, args⟩ :: calls) ∧
      program.Returns name args body
  | .leave _ _ (.error _) => True

/-- Each of some events is accounted for, given those before it. -/
def Justifies (program : Program) (P : Term → Prop) (events : List (Event Failure)) : Prop :=
  ∀ before ev, before ++ [ev] <+: events → program.Accounts P before ev

variable {program : Program} {P : Term → Prop}

theorem Justifies.nil : program.Justifies P [] := by
  intro before ev h
  have hnil := List.prefix_nil.1 h
  simp at hnil

theorem Justifies.concat {events : List (Event Failure)} {ev : Event Failure}
    (h : program.Justifies P events) (hev : program.Accounts P events ev) :
    program.Justifies P (events ++ [ev]) := by
  intro before ev' hinitial
  rcases List.prefix_concat_iff.1 hinitial with heq | hinitial
  · obtain ⟨rfl, hsame⟩ := List.append_inj_left' heq rfl, List.append_inj_right' heq rfl
    cases hsame
    exact hev
  · exact h before ev' hinitial

/-- Once no call is open, events may be followed by others that are accounted for on their own. -/
theorem Justifies.append {events events' : List (Event Failure)} (h : program.Justifies P events)
    (hclosed : replay [] events = some []) (h' : program.Justifies P events') :
    program.Justifies P (events ++ events') := by
  -- On the later events, from the back: the last one sees the earlier events replayed to nothing.
  induction events' using List.reverseRecOn with
  | nil =>
    rw [List.append_nil]
    exact h
  | append_singleton rest ev ih =>
    have hrest : program.Justifies P rest := fun before ev' hinitial =>
      h' before ev' (hinitial.trans (List.prefix_append rest [ev]))
    have hev : program.Accounts P rest ev := h' rest ev List.prefix_rfl
    rw [← List.append_assoc]
    refine (ih hrest).concat ?_
    cases ev with
    | enter depth name args => exact hev
    | leave depth name result =>
      cases result with
      | error f => exact trivial
      | ok body =>
        obtain ⟨hbody, args, calls, hreplayed, hreturns⟩ := hev
        refine ⟨hbody, args, calls, ?_, hreturns⟩
        rw [replay_append, hclosed, Option.bind_some]
        exact hreplayed

end Program

/-! ## The parts of a machine -/

/-- The terms that a frame will go on with have a property. -/
def Frame.Of (P : Term → Prop) : Frame → Prop
  | .head elems => P (.app elems)
  | .call _ args attempt _ _ => (∀ x ∈ args, P x) ∧ ∀ x ∈ attempt.args, P x

/-- The arguments that a call may still ask for have a property. -/
def Progress.Of (P : Term → Prop) : Progress → Prop
  | .need arg attempt _ => P arg ∧ ∀ x ∈ attempt.args, P x
  | .matched _ => True
  | .stuck => True

theorem Progress.start_of {P : Term → Prop} {args : List Term} (hargs : ∀ x ∈ args, P x)
    (clauses : List Clause) : (Progress.start args clauses).Of P := by
  induction clauses with
  | nil => exact trivial
  | cons c others ih =>
    unfold Progress.start
    split
    · exact trivial
    · rw [List.forall_mem_cons] at hargs
      split
      · exact hargs
      · exact ih
    · exact ih

theorem Attempt.resume_of {P : Term → Prop} {a : Attempt} {args : List Term}
    (hargs : ∀ x ∈ args, P x) (hrest : ∀ x ∈ a.args, P x) (others : List Clause) (value : Term) :
    (a.resume args others value).Of P := by
  unfold Attempt.resume
  split
  · unfold Attempt.advance
    split
    · rename_i hmore
      rw [hmore, List.forall_mem_cons] at hrest
      exact hrest
    · exact trivial
  · exact Progress.start_of hargs others

namespace Machine

variable {program : Program} {config : Config} {P : Term → Prop}

/-- Some frames are right to be handed whatever a term evaluates to. The frame of a head stands for
    the application it belongs to; the frame of a call for whatever the call returns, provided that
    going on with the value leads to nothing else. -/
def Awaits (program : Program) : List Frame → Term → Prop
  | [], _ => True
  | .head elems :: frames, t =>
    (∀ name v, program.Evaluates t (.ident name) → Continues program elems name v →
      program.Evaluates (.app elems) v) ∧ Awaits program frames (.app elems)
  | .call name args attempt others goOn :: frames, t =>
    goOn = true ∧
      (∀ w body, program.Evaluates t w →
        Progress.Leads program.Evaluates args (attempt.resume args others w) body →
        program.Returns name args body) ∧
      ∀ body, program.Returns name args body → Awaits program frames body

/-- A term may take the place of another if it evaluates to nothing else. -/
theorem Awaits.replace {frames : List Frame} {s t : Term} (h : Awaits program frames s)
    (hst : ∀ v, program.Evaluates t v → program.Evaluates s v) : Awaits program frames t := by
  cases frames with
  | nil => exact trivial
  | cons frame frames =>
    cases frame with
    | head elems =>
      obtain ⟨happ, hframes⟩ := h
      refine ⟨?_, hframes⟩
      intro name v ht hcontinues
      exact happ name v (hst _ ht) hcontinues
    | call name args attempt others goOn =>
      obtain ⟨hgoOn, hresume, hframes⟩ := h
      refine ⟨hgoOn, ?_, hframes⟩
      intro w body hw hleads
      exact hresume w body (hst w hw) hleads

/-- A machine hands its frames what they wait for. -/
def Waits (program : Program) (m : Machine) : Prop :=
  match m.control with
  | .reduce t => Awaits program m.frames t
  | .give v => program.Evaluates v v ∧ Awaits program m.frames v
  | .abandon _ => True

/-- The terms that a machine is about to work on have a property. -/
def OfControl (P : Term → Prop) : Control → Prop
  | .reduce t => P t
  | .give v => P v
  | .abandon _ => True

/-- A machine hands its frames what they wait for, all its terms have a property, and so far
    everything that happened is accounted for. -/
structure Sound (program : Program) (P : Term → Prop) (m : Machine) : Prop where
  waits : m.Waits program
  control : OfControl P m.control
  frames : ∀ f ∈ m.frames, f.Of P
  events : program.Justifies P m.events.reverse

namespace Sound

/-- Work that goes on between two events. -/
theorem work {m : Machine} {control : Control} {frames : List Frame} (h : m.Sound program P)
    (hwaits : Waits program { m with control := control, frames := frames })
    (hcontrol : OfControl P control) (hframes : ∀ f ∈ frames, f.Of P) :
    Sound program P { m with control := control, frames := frames } :=
  ⟨hwaits, hcontrol, hframes, h.events⟩

/-- A call that is left with a failure waits for nothing. -/
theorem leave_error {m : Machine} (hevents : program.Justifies P m.events.reverse) (name : String)
    (f : Failure) {frames : List Frame} (hframes : ∀ x ∈ frames, x.Of P) :
    Sound program P (m.leave name (.error f) (.abandon f) frames) := by
  refine ⟨trivial, trivial, hframes, ?_⟩
  rw [leave, List.reverse_cons]
  exact hevents.concat trivial

/-- However far the innermost call has got, it is acted on in order. -/
theorem proceed (hkeeps : program.Keeps P) {m : Machine}
    (hevents : program.Justifies P m.events.reverse) {name : String} {args : List Term}
    {calls : List OpenCall} (hcalls : replay [] m.events.reverse = some (⟨name, args⟩ :: calls))
    (hargs : ∀ x ∈ args, P x) {frames : List Frame} (hframes : ∀ f ∈ frames, f.Of P)
    (hawaits : ∀ body, program.Returns name args body → Awaits program frames body)
    {progress : Progress} (hprogress : progress.Of P)
    (hleads : ∀ body, Progress.Leads program.Evaluates args progress body →
      program.Returns name args body) :
    Sound program P (m.proceed name args true frames progress) := by
  cases progress with
  | need arg attempt others =>
    refine ⟨⟨rfl, ?_, hawaits⟩, hprogress.1, ?_, hevents⟩
    · intro w body hw hbody
      exact hleads body (.need hw hbody)
    · exact List.forall_mem_cons.2 ⟨⟨hargs, hprogress.2⟩, hframes⟩
  | matched body =>
    have hreturns : program.Returns name args body := hleads body (.matched body)
    have hbody : P body := hkeeps.call hargs hreturns
    refine ⟨hawaits body hreturns, hbody, hframes, ?_⟩
    rw [Machine.proceed, leave, List.reverse_cons]
    exact hevents.concat ⟨hbody, args, calls, hcalls, hreturns⟩
  | stuck => exact leave_error hevents name _ hframes

/-- A call may be made of arguments that have the property, if the frames below it wait for what it
    returns. -/
theorem call (hkeeps : program.Keeps P) {m : Machine} (hlive : m.Live config)
    (hevents : program.Justifies P m.events.reverse) (name : String) {args : List Term}
    (hargs : ∀ x ∈ args, P x) {frames : List Frame} (hframes : ∀ f ∈ frames, f.Of P)
    (hawaits : ∀ body, program.Returns name args body → Awaits program frames body) :
    Sound program P (m.call program config name args true frames) := by
  unfold Machine.call
  split
  · exact ⟨trivial, trivial, hframes, hevents⟩
  · rename_i hrefusal
    have hopened : program.Justifies P (m.opened name args).events.reverse := by
      rw [opened, List.reverse_cons]
      exact hevents.concat hargs
    have hcalls := (hlive.opened hrefusal name args).replayed
    split
    · rename_i clauses hclauses
      exact proceed hkeeps hopened hcalls hargs hframes hawaits (Progress.start_of hargs clauses)
        fun body hleads => ⟨clauses, hclauses, hleads⟩
    · exact leave_error hopened name _ hframes

/-- To begin with, a term is replaced by one with the same value, or given as it is. -/
theorem reduceTerm (hkeeps : program.Keeps P) {m : Machine} {t : Term} (h : m.Sound program P)
    (hm : m.control = .reduce t) : Sound program P (m.reduceTerm t) := by
  have hwaits : Awaits program m.frames t := by
    have hw := h.waits
    rw [Waits, hm] at hw
    exact hw
  have hP : P t := by
    have hc := h.control
    rw [hm] at hc
    exact hc
  -- A term that is given as it is evaluates to itself.
  have hgive : program.Evaluates t t → Sound program P { m with control := .give t } :=
    fun hself => h.work ⟨hself, hwaits⟩ hP h.frames
  have hfault : ∀ f, Sound program P { m with control := .abandon f } :=
    fun f => h.work trivial trivial h.frames
  cases t with
  | ident name => exact hgive (.ident name)
  | group inner => exact h.work (hwaits.replace fun v => .group) (hkeeps.inner hP) h.frames
  | seq kind elems =>
    cases kind with
    | application =>
      match elems with
      | [] => exact hgive .nothing
      | [only] =>
        exact h.work (hwaits.replace fun v => .single) (hkeeps.element hP only (by simp)) h.frames
      | head :: arg :: args =>
        refine h.work ⟨?_, hwaits⟩ (hkeeps.element hP head (by simp))
          (List.forall_mem_cons.2 ⟨hP, h.frames⟩)
        intro name v hhead hcontinues
        exact hcontinues.evaluates hhead
    | arrow => exact hgive (.arrow elems)
    | entity => exact hgive (.entity elems)
  | rel kind left right => exact hgive (.rel kind left right)
  | builtin left right => exact hgive (.builtin left right)
  | marker => exact hfault _
  | builtinMarker => exact hfault _
  | hole => exact hfault _

/-- A value is handed to the frame that waits for it. -/
theorem giveValue (hkeeps : program.Keeps P) {m : Machine} {value : Term} (h : m.Sound program P)
    (hlive : m.Live config) (hheld : heldCalls m.frames = m.calls.calls)
    (hm : m.control = .give value) : Sound program P (m.giveValue program config value) := by
  have hwaits : program.Evaluates value value ∧ Awaits program m.frames value := by
    have hw := h.waits
    rw [Waits, hm] at hw
    exact hw
  obtain ⟨hself, hwaits⟩ := hwaits
  have hframes := h.frames
  unfold Machine.giveValue
  split
  · exact h
  · rename_i elems frames heq
    rw [heq] at hwaits
    rw [heq, List.forall_mem_cons] at hframes
    obtain ⟨happ, hbelow⟩ := hwaits
    obtain ⟨helems, hframes⟩ := hframes
    split
    · rename_i name
      split
      · rename_i hvalue
        have hconstructed : program.Evaluates (.app elems) (.app elems) :=
          happ name _ hself (.inl ⟨hvalue, rfl⟩)
        exact h.work ⟨hconstructed, hbelow⟩ helems hframes
      · rename_i hvalue
        -- The application comes to whatever the body that the call returns evaluates to.
        refine call hkeeps hlive h.events name ?_ hframes ?_
        · intro x hx
          exact hkeeps.element helems x (List.mem_of_mem_tail hx)
        · rintro body ⟨clauses, hclauses, hleads⟩
          refine hbelow.replace fun v hv => happ name v hself (.inr ⟨?_, ?_⟩)
          · exact Bool.not_eq_true _ ▸ hvalue
          · exact ⟨clauses, body, hclauses, hleads, hv⟩
    · exact h.work trivial trivial hframes
  · rename_i name args attempt others goOn frames heq
    rw [heq] at hwaits hheld
    rw [heq, List.forall_mem_cons] at hframes
    obtain ⟨rfl, hresume, hbelow⟩ := hwaits
    obtain ⟨⟨hargs, hrest⟩, hframes⟩ := hframes
    have hcalls : replay [] m.events.reverse = some (⟨name, args⟩ :: heldCalls frames) := by
      rw [hlive.replayed, ← hheld, heldCalls_call]
    exact proceed hkeeps h.events hcalls hargs hframes hbelow
      (Attempt.resume_of hargs hrest others value) fun body => hresume value body hself

theorem abandonFrame {m : Machine} {f : Failure} (h : m.Sound program P)
    (hm : m.control = .abandon f) : Sound program P (m.abandonFrame f) := by
  have hframes := h.frames
  unfold Machine.abandonFrame
  split
  · exact h
  · rename_i elems frames heq
    rw [heq, List.forall_mem_cons] at hframes
    refine ⟨?_, h.control, hframes.2, h.events⟩
    rw [Waits]
    simp only [hm]
  · rename_i name args attempt others goOn frames heq
    rw [heq, List.forall_mem_cons] at hframes
    exact leave_error h.events name f hframes.2

/-- A step keeps a machine sound. -/
theorem step (hkeeps : program.Keeps P) {m : Machine} (h : m.Sound program P)
    (hbracketed : m.Bracketed config) : Sound program P (m.step program config) := by
  cases hm : m.control with
  | reduce t =>
    rw [step_reduce hm]
    exact h.reduceTerm hkeeps hm
  | give value =>
    rw [step_give hm]
    exact h.giveValue hkeeps (hbracketed.live (by simp [Busy, hm])) hbracketed.held hm
  | abandon f =>
    rw [step_abandon hm]
    exact h.abandonFrame hm

/-- So does a whole run. -/
theorem reaches (hkeeps : program.Keeps P) {m m' : Machine} (h : m.Sound program P)
    (hbracketed : m.Bracketed config) (hreach : Reaches program config m m') :
    m'.Sound program P := by
  have hboth : m'.Sound program P ∧ m'.Bracketed config := by
    refine hreach.invariant (P := fun x => x.Sound program P ∧ x.Bracketed config) ?_
      ⟨h, hbracketed⟩
    rintro x ⟨hsound, hx⟩
    exact ⟨hsound.step hkeeps hx, hx.moves (step_moves program config x)⟩
  exact hboth.1

end Sound

end Machine

open Machine

/-! ## Evaluations -/

/-- Everything that happened in an evaluation is accounted for, for a property `P` of the terms that
    are passed on, and what it came to, if it is a value, has a property `Q`. -/
structure Evaluation.Accounted (program : Program) (P Q : Term → Prop) (evaluation : Evaluation) :
    Prop where
  value : ∀ v, evaluation.outcome = .value v → Q v
  events : program.Justifies P evaluation.events

/-- The same of a program that was run. -/
structure Interpretation.Accounted (program : Program) (P Q : Term → Prop) (run : Interpretation) :
    Prop where
  value : ∀ v, run.verdict = .value v → Q v
  events : program.Justifies P run.events

theorem Evaluation.Accounted.interpretation {program : Program} {P Q : Term → Prop}
    {evaluation : Evaluation} (h : evaluation.Accounted program P Q) :
    evaluation.interpretation.Accounted program P Q :=
  ⟨fun v hv => h.value v (Evaluation.interpretation_value.1 hv), h.events⟩

namespace Evaluator

variable {e : Evaluator} {P Q : Term → Prop}

/-- An evaluation is accounted for if every machine that it may end with is. -/
theorem finish_accounted {m : Machine}
    (h : ∀ m', Reaches e.program e.config m m' →
      e.program.Justifies P m'.events.reverse ∧ ∀ v, m'.result? = some (.ok v) → Q v) :
    (e.finish m).Accounted e.program P Q := by
  obtain ⟨hreach, hresult, -⟩ := run_reaches e.program e.config e.config.horizon m
  rcases hrun : m.run e.program e.config e.config.horizon with ⟨result, m'⟩
  rw [hrun] at hreach hresult
  obtain ⟨hevents, hvalue⟩ := h m' hreach
  unfold finish
  rw [hrun]
  refine ⟨?_, hevents⟩
  intro v hv
  apply hvalue v
  apply hresult
  rcases result with _ | f | w
  · cases hv
  · cases hv
  · cases hv
    rfl

/-- A sound machine ends with a value that has the property. -/
theorem accounted_of_sound (hkeeps : e.program.Keeps P) {m m' : Machine}
    (hsound : m.Sound e.program P) (hbracketed : m.Bracketed e.config)
    (hreach : Reaches e.program e.config m m') :
    e.program.Justifies P m'.events.reverse ∧ ∀ v, m'.result? = some (.ok v) → P v := by
  have hsound' := hsound.reaches hkeeps hbracketed hreach
  refine ⟨hsound'.events, ?_⟩
  intro v hv
  have hcontrol := hsound'.control
  rw [(result?_eq_ok_iff.1 hv).1] at hcontrol
  exact hcontrol

theorem reduce_accounted (hkeeps : e.program.Keeps P) (hcalls : e.calls = .empty) {t : Term}
    (ht : P t) : (e.reduce t).Accounted e.program P P := by
  have hsound : (e.machine (.reduce t)).Sound e.program P :=
    ⟨trivial, ht, by rintro f ⟨⟩, .nil⟩
  exact finish_accounted fun m' =>
    accounted_of_sound hkeeps hsound (machine_bracketed hcalls (by simp))

/-- The entry of a program may lack the property: it is not passed on. It only comes out again where
    it is a constructor without clauses, applied to what it was applied to. -/
theorem reduce_entry_accounted (hkeeps : e.program.Keeps P) (hcalls : e.calls = .empty)
    (name : String) {arg : Term} (harg : P arg) :
    (e.reduce (.app [.ident name, arg])).Accounted e.program P fun v =>
      P v ∨ e.program.isValueHead name = true ∧ v = .app [.ident name, arg] := by
  -- Two steps bring the name in front of the application; nothing has happened up to then.
  let start := e.machine (.reduce (.app [.ident name, arg]))
  let waiting : Control → Machine := fun control =>
    { start with control := control, frames := [.head [.ident name, arg]] }
  have hbracketed : start.Bracketed e.config := machine_bracketed hcalls (by simp)
  have hlive : (waiting (.give (.ident name))).Live e.config :=
    (hbracketed.live (by simp [Busy, start, machine])).congr rfl rfl
  have hnothing : e.program.Justifies P start.events.reverse := .nil
  refine finish_accounted fun m' hreach => ?_
  rcases hreach.cases_step with rfl | hreach
  · exact ⟨hnothing, by rintro v ⟨⟩⟩
  rcases hreach.cases_step with rfl | hreach
  · exact ⟨hnothing, by rintro v ⟨⟩⟩
  rcases hreach.cases_step with rfl | hreach
  · exact ⟨hnothing, by rintro v ⟨⟩⟩
  have hreach : Reaches e.program e.config
      ((waiting (.give (.ident name))).step e.program e.config) m' := hreach
  cases hvalue : e.program.isValueHead name with
  | true =>
    rw [step_give_constructor rfl rfl hvalue] at hreach
    have hend := hreach.eq_of_result rfl
    rw [hend]
    refine ⟨hnothing, ?_⟩
    rintro v ⟨⟩
    exact .inr ⟨rfl, rfl⟩
  | false =>
    -- From the call on, all terms have the property.
    have hfunction : (waiting (.give (.ident name))).step e.program e.config = _ :=
      step_give_function rfl rfl hvalue
    have hsound : ((waiting (.give (.ident name))).step e.program e.config).Sound e.program P := by
      rw [hfunction]
      exact .call hkeeps hlive hnothing name (by simpa using harg) (by rintro f ⟨⟩)
        fun _ _ => trivial
    have hbracketed' :
        ((waiting (.give (.ident name))).step e.program e.config).Bracketed e.config :=
      hbracketed.reaches (Reaches.iterate 3 start : Reaches e.program e.config start _)
    obtain ⟨hevents, hresult⟩ := accounted_of_sound hkeeps hsound hbracketed' hreach
    exact ⟨hevents, fun v hv => .inl (hresult v hv)⟩

/-- Running a program is accounted for if its seed has the property. -/
theorem interpret_accounted (hkeeps : e.program.Keeps P) (hcalls : e.calls = .empty)
    (hseed : P e.config.seedTerm) :
    e.interpret.Accounted e.program P fun v =>
      P v ∨ e.program.isValueHead e.config.entryName = true ∧
        v = .app [.ident e.config.entryName, e.config.seedTerm] := by
  unfold interpret
  split
  · exact ⟨by rintro v ⟨⟩, .nil⟩
  have hfirst := reduce_entry_accounted hkeeps hcalls e.config.entryName hseed
  generalize hstart : Term.app [.ident e.config.entryName, e.config.seedTerm] = start at hfirst ⊢
  rcases interpretFrom_eq e start e.config.patience with heq | ⟨v, hv, heq⟩
  · rw [heq]
    exact hfirst.interpretation
  · rw [heq]
    -- The first reduction gave a value, so the second begins with no call open.
    have htold := reduce_told hcalls (t := start) (by rw [hv]; simp)
    have hsecond : ((e.reduce start).evaluator.reduce v).Accounted e.program P fun v =>
        P v ∨ e.program.isValueHead e.config.entryName = true ∧ v = start := by
      have hkeeps' : (e.reduce start).evaluator.program.Keeps P := hkeeps
      rcases hfirst.value v hv with hP | ⟨-, rfl⟩
      · have hagain := reduce_accounted hkeeps' htold.closed hP
        exact ⟨fun w hw => .inl (hagain.value w hw), hagain.events⟩
      · have hagain := reduce_entry_accounted hkeeps' htold.closed e.config.entryName hseed
        rw [hstart] at hagain
        exact hagain
    refine Evaluation.Accounted.interpretation ⟨hsecond.value, ?_⟩
    exact hfirst.events.append htold.replayed hsecond.events

end Evaluator

end Clausal
