/-
  Clausal.Proofs.Adequacy

  The machine computes what the semantics says. Unless it refuses a call, a machine that begins
  with a term comes to the term's value with its frames and its open calls as they were
  (`Program.Evaluates.passes`), by induction on the derivation: the frames below and everything
  counted so far are arbitrary, so an argument may be reduced once for every clause that asks
  for it. Where nothing hinders the machine it refuses no call (`Program.Evaluates.yields`). Two
  derivations drive the same machine, so a term has at most one value
  (`Program.Evaluates.unique`).

  Conversely every machine that comes to a value was right to (`Machine.answers_of_step`).
  `Machine.Answers` reads a machine as a claim about the semantics, frame by frame, and the claim
  made after a step implies the one made before it. Budgets and interrupts only end runs, so this
  holds under any settings.
-/
import Clausal.Proofs.Matching
import Clausal.Proofs.Moves

namespace Clausal

namespace Machine

variable {program : Program} {config : Config}

/-! ## Nothing in the way -/

/-- No call will be refused: there are no budgets, and no interrupt is pending. -/
structure Unhindered (config : Config) (m : Machine) : Prop where
  steps : config.maxSteps ≤ 0
  depth : config.maxDepth ≤ 0
  signal : m.signal = .quiet

theorem Unhindered.not_refused {m : Machine} (h : m.Unhindered config) :
    m.refusal? config = none := by
  obtain ⟨hsteps, hdepth, hsignal⟩ := h
  have hs : ¬ 0 < config.maxSteps := by omega
  have hd : ¬ 0 < config.maxDepth := by omega
  simp [Machine.refusal?, hs, hd, hsignal, Signal.quiet]

/-- Only the interrupt of a machine can hinder it. -/
theorem Unhindered.of_signal {m m' : Machine} (h : m.Unhindered config)
    (hsignal : m'.signal = m.signal) : m'.Unhindered config :=
  ⟨h.steps, h.depth, hsignal.trans h.signal⟩

theorem Unhindered.moves {m m' : Machine} (h : m.Unhindered config)
    (hmoves : Moves program config m m') : m'.Unhindered config := by
  -- A signal that is quiet stays so, however many calls go by.
  rcases hmoves.signal with hsignal | hsignal
  · exact h.of_signal hsignal
  · refine ⟨h.steps, h.depth, ?_⟩
    rw [hsignal, h.signal]
    rfl

theorem Unhindered.reaches {m m' : Machine} (h : m.Unhindered config)
    (hreach : Reaches program config m m') : m'.Unhindered config :=
  hreach.invariant (fun m hm => hm.moves (step_moves program config m)) h

/-! ## Steps by what the machine is about to do -/

theorem step_reduce {m : Machine} {t : Term} (h : m.control = .reduce t) :
    m.step program config = m.reduceTerm t := by
  unfold step
  rw [h]

theorem step_give {m : Machine} {value : Term} (h : m.control = .give value) :
    m.step program config = m.giveValue program config value := by
  unfold step
  rw [h]

theorem step_abandon {m : Machine} {f : Failure} (h : m.control = .abandon f) :
    m.step program config = m.abandonFrame f := by
  unfold step
  rw [h]

theorem step_give_call {m : Machine} {value : Term} {name : String} {args : List Term}
    {attempt : Attempt} {others : List Clause} {goOn : Bool} {frames : List Frame}
    (h : m.control = .give value)
    (hframes : m.frames = .call name args attempt others goOn :: frames) :
    m.step program config
      = m.proceed name args goOn frames (attempt.resume args others value) := by
  rw [step_give h]
  unfold giveValue
  rw [hframes]

theorem step_give_constructor {m : Machine} {name : String} {elems : List Term}
    {frames : List Frame} (h : m.control = .give (.ident name))
    (hframes : m.frames = .head elems :: frames) (hvalue : program.isValueHead name = true) :
    m.step program config = { m with control := .give (.app elems), frames := frames } := by
  rw [step_give h]
  unfold giveValue
  rw [hframes]
  exact if_pos hvalue

theorem step_give_function {m : Machine} {name : String} {elems : List Term}
    {frames : List Frame} (h : m.control = .give (.ident name))
    (hframes : m.frames = .head elems :: frames) (hvalue : program.isValueHead name = false) :
    m.step program config = m.call program config name elems.tail true frames := by
  rw [step_give h]
  unfold giveValue
  rw [hframes]
  exact if_neg (by rw [hvalue]; exact Bool.false_ne_true)

theorem step_give_malformed {m : Machine} {value : Term} {elems : List Term}
    {frames : List Frame} (h : m.control = .give value) (hframes : m.frames = .head elems :: frames)
    (hvalue : ∀ name, value ≠ .ident name) :
    m.step program config
      = { m with
          control := .abandon (m.failure value.render .malformedHead), frames := frames } := by
  rw [step_give h]
  unfold giveValue
  rw [hframes]
  cases value with
  | ident name => exact absurd rfl (hvalue name)
  | _ => rfl

theorem call_of_clauses {m : Machine} {name : String} {args : List Term} {goOn : Bool}
    {frames : List Frame} {clauses : List Clause} (hrefusal : m.refusal? config = none)
    (hclauses : program.clauses.get? name = some clauses) :
    m.call program config name args goOn frames
      = (m.opened name args).proceed name args goOn frames (Progress.start args clauses) := by
  simp only [call, hrefusal, hclauses]

theorem call_of_refusal {m : Machine} {cause : Cause} (h : m.refusal? config = some cause)
    (name : String) (args : List Term) (goOn : Bool) (frames : List Frame) :
    m.call program config name args goOn frames
      = { m with control := .abandon (m.failure name cause), frames := frames } := by
  simp only [call, h]

/-! ## Machines about to make a call -/

/-- The machine is about to call a function above some frames. -/
structure Calls (program : Program) (m : Machine) (name : String) (args : List Term)
    (frames : List Frame) : Prop where
  control : m.control = .give (.ident name)
  frames : ∃ elems, m.frames = .head elems :: frames ∧ elems.tail = args
  function : program.isValueHead name = false

theorem Calls.step {m : Machine} {name : String} {args : List Term} {frames : List Frame}
    (h : m.Calls program name args frames) (config : Config) :
    m.step program config = m.call program config name args true frames := by
  obtain ⟨hcontrol, ⟨elems, hframes, rfl⟩, hfunction⟩ := h
  exact step_give_function hcontrol hframes hfunction

theorem Calls.busy {m : Machine} {name : String} {args : List Term} {frames : List Frame}
    (h : m.Calls program name args frames) : m.Busy := by
  intro f hf
  rw [h.control] at hf
  cases hf

theorem Calls.held {m : Machine} {name : String} {args : List Term} {frames : List Frame}
    (h : m.Calls program name args frames) : heldCalls frames = heldCalls m.frames := by
  obtain ⟨elems, hframes, -⟩ := h.frames
  rw [hframes, heldCalls_head]

/-! ## From the semantics to the machine -/

/-- A machine comes to a call that it refuses. -/
def Stops (program : Program) (config : Config) (m : Machine) : Prop :=
  ∃ m' name args frames cause, Reaches program config m m' ∧
    m'.Calls program name args frames ∧ m'.refusal? config = some cause

theorem Stops.of_reaches {m m' : Machine} (h : m'.Stops program config)
    (hreach : Reaches program config m m') : m.Stops program config := by
  obtain ⟨m'', name, args, frames, cause, hreach', hcalls⟩ := h
  exact ⟨m'', name, args, frames, cause, hreach.trans hreach', hcalls⟩

/-- A machine that nothing hinders refuses no call. -/
theorem Unhindered.not_stops {m : Machine} (h : m.Unhindered config) :
    ¬ m.Stops program config := by
  rintro ⟨m', name, args, frames, cause, hreach, -, hrefusal⟩
  rw [(h.reaches hreach).not_refused] at hrefusal
  cases hrefusal

/-- A machine is where another was, with the same calls open, and about to do something. -/
structure Regains (m : Machine) (control : Control) (m' : Machine) : Prop where
  control : m'.control = control
  frames : m'.frames = m.frames
  calls : m'.calls = m.calls

/-- A machine that does not come to a call that it refuses brings a term to a value and is then
    where it was, with the value in hand. On the way it has reduced the value itself. -/
def Passes (program : Program) (config : Config) (t v : Term) : Prop :=
  ∀ m : Machine, m.control = .reduce t → m.Stops program config ∨
    ∃ m₁ m₂, Reaches program config m m₁ ∧ m.Regains (.reduce v) m₁ ∧
      Reaches program config m₁ m₂ ∧ m.Regains (.give v) m₂

/-- A term that the machine gives at once. -/
theorem Passes.of_reduceTerm {t : Term}
    (h : ∀ m : Machine, m.reduceTerm t = { m with control := .give t }) :
    Passes program config t t := by
  intro m hm
  refine .inr ⟨m, _, .refl m, ⟨hm, rfl, rfl⟩, .step m, ?_⟩
  rw [step_reduce hm, h]
  exact ⟨rfl, rfl, rfl⟩

/-- A term in whose place the machine reduces another. -/
theorem Passes.of_inner {t inner v : Term}
    (h : ∀ m : Machine, m.reduceTerm t = { m with control := .reduce inner })
    (hinner : Passes program config inner v) : Passes program config t v := by
  intro m hm
  have hstep : Reaches program config m { m with control := .reduce inner } := by
    rw [← h, ← step_reduce hm]
    exact .step m
  rcases hinner { m with control := .reduce inner } rfl with
    hstops | ⟨m₁, m₂, hreach₁, hm₁, hreach₂, hm₂⟩
  · exact .inl (hstops.of_reaches hstep)
  · exact .inr ⟨m₁, m₂, hstep.trans hreach₁, ⟨hm₁.control, hm₁.frames, hm₁.calls⟩, hreach₂,
      ⟨hm₂.control, hm₂.frames, hm₂.calls⟩⟩

/-- The head of an application is brought to a name, with the application waiting. -/
theorem Passes.head {head arg : Term} {args : List Term} {name : String}
    (h : Passes program config head (.ident name)) {m : Machine}
    (hm : m.control = .reduce (.app (head :: arg :: args))) :
    m.Stops program config ∨
      ∃ m', Reaches program config m m' ∧ m'.control = .give (.ident name) ∧
        m'.frames = .head (head :: arg :: args) :: m.frames ∧ m'.calls = m.calls := by
  have hstep : Reaches program config m { m with
      control := .reduce head, frames := .head (head :: arg :: args) :: m.frames } := by
    have hpushed : m.step program config = { m with
        control := .reduce head, frames := .head (head :: arg :: args) :: m.frames } := by
      rw [step_reduce hm]
      rfl
    rw [← hpushed]
    exact .step m
  rcases h { m with
      control := .reduce head, frames := .head (head :: arg :: args) :: m.frames } rfl with
    hstops | ⟨m₁, m₂, hreach₁, -, hreach₂, hm₂⟩
  · exact .inl (hstops.of_reaches hstep)
  · exact .inr ⟨m₂, hstep.trans (hreach₁.trans hreach₂), hm₂.control, hm₂.frames, hm₂.calls⟩

end Machine

open Machine

/-- A call that is entered goes on to the body that its progress leads to, and is left. -/
theorem Progress.Leads.reaches {program : Program} {config : Config} {args : List Term}
    {progress : Progress} {body : Term}
    (h : Progress.Leads (Passes program config) args progress body) (m : Machine)
    (name : String) (frames : List Frame) :
    (m.proceed name args true frames progress).Stops program config ∨
      ∃ m', Reaches program config (m.proceed name args true frames progress) m' ∧
        m'.control = .reduce body ∧ m'.frames = frames ∧ m'.calls = m.calls.pop := by
  induction h generalizing m with
  | matched body => exact .inr ⟨_, .refl _, rfl, rfl, rfl⟩
  | @need arg value body attempt others hvalue _ ih =>
    -- The argument is brought to its value with the call waiting, and the call goes on.
    rcases hvalue (m.proceed name args true frames (.need arg attempt others)) rfl with
      hstops | ⟨m₁, m₂, hreach₁, -, hreach₂, hm₂⟩
    · exact .inl hstops
    · have hreach := (hreach₁.trans hreach₂).trans (.step m₂)
      rw [step_give_call hm₂.control hm₂.frames] at hreach
      rcases ih m₂ with hstops | ⟨m₃, hreach₃, hcontrol₃, hframes₃, hcalls₃⟩
      · exact .inl (hstops.of_reaches hreach)
      · rw [hm₂.calls] at hcalls₃
        exact .inr ⟨m₃, hreach.trans hreach₃, hcontrol₃, hframes₃, hcalls₃⟩

namespace Program.Evaluates

variable {program : Program}

/-- What a term evaluates to is what a machine brings it to, unless it refuses a call. -/
theorem passes {t v : Term} (h : program.Evaluates t v) {config : Config} :
    Passes program config t v := by
  induction h with
  | group _ ih => exact .of_inner (fun _ => rfl) ih
  | nothing => exact .of_reduceTerm fun _ => rfl
  | single _ ih => exact .of_inner (fun _ => rfl) ih
  | constructor _ hvalue ih =>
    intro m hm
    rcases ih.head hm with hstops | ⟨m₁, hreach₁, hcontrol₁, hframes₁, hcalls₁⟩
    · exact .inl hstops
    · refine .inr ⟨m, _, .refl m, ⟨hm, rfl, rfl⟩, hreach₁.trans (.step m₁), ?_⟩
      rw [step_give_constructor hcontrol₁ hframes₁ hvalue]
      exact ⟨rfl, rfl, hcalls₁⟩
  | @call head arg v args values name c earlier later _ hvalue hclauses hlen _ hselects _ ihhead
      ihargs ihbody =>
    intro m hm
    rcases ihhead.head hm with hstops | ⟨m₁, hreach₁, hcontrol₁, hframes₁, hcalls₁⟩
    · exact .inl hstops
    cases hrefusal : m₁.refusal? config with
    | some cause =>
      exact .inl ⟨m₁, name, arg :: args, m.frames, cause, hreach₁,
        ⟨hcontrol₁, ⟨_, hframes₁, rfl⟩, hvalue⟩, hrefusal⟩
    | none =>
      -- The call is entered, its clauses are gone through, and it is left with the body.
      have hleads : Progress.Leads (Passes program config) (arg :: args)
          (Progress.start (arg :: args) (earlier ++ c :: later)) (c.instantiate values) :=
        hselects.leads ihargs
      have hreach : Reaches program config m ((m₁.opened name (arg :: args)).proceed name
          (arg :: args) true m.frames (Progress.start (arg :: args) (earlier ++ c :: later))) := by
        have hentered := hreach₁.trans (.step m₁)
        rw [step_give_function hcontrol₁ hframes₁ hvalue, call_of_clauses hrefusal hclauses]
          at hentered
        exact hentered
      rcases hleads.reaches (m₁.opened name (arg :: args)) name m.frames with
        hstops | ⟨m₂, hreach₂, hcontrol₂, hframes₂, hcalls₂⟩
      · exact .inl (hstops.of_reaches hreach)
      · -- The body is reduced in the place of the application.
        have hcalls : m₂.calls = m.calls := by
          rw [hcalls₂, opened, CallStack.pop_push, hcalls₁]
        rcases ihbody m₂ hcontrol₂ with hstops | ⟨m₃, m₄, hreach₃, hm₃, hreach₄, hm₄⟩
        · exact .inl (hstops.of_reaches (hreach.trans hreach₂))
        · exact .inr ⟨m₃, m₄, hreach.trans (hreach₂.trans hreach₃),
            ⟨hm₃.control, hm₃.frames.trans hframes₂, hm₃.calls.trans hcalls⟩, hreach₄,
            ⟨hm₄.control, hm₄.frames.trans hframes₂, hm₄.calls.trans hcalls⟩⟩
  | ident name => exact .of_reduceTerm fun _ => rfl
  | arrow elems => exact .of_reduceTerm fun _ => rfl
  | entity elems => exact .of_reduceTerm fun _ => rfl
  | rel kind left right => exact .of_reduceTerm fun _ => rfl
  | builtin left right => exact .of_reduceTerm fun _ => rfl

/-- A machine that nothing hinders brings a term to its value and is then where it was, with the
    value in hand. -/
theorem yields {t v : Term} (h : program.Evaluates t v) {config : Config} (m : Machine)
    (hm : m.control = .reduce t) (hfree : m.Unhindered config) :
    ∃ m', Reaches program config m m' ∧ m'.control = .give v ∧ m'.frames = m.frames := by
  rcases h.passes m hm with hstops | ⟨m₁, m₂, hreach₁, -, hreach₂, hm₂⟩
  · exact absurd hstops hfree.not_stops
  · exact ⟨m₂, hreach₁.trans hreach₂, hm₂.control, hm₂.frames⟩

/-- A term has at most one value. -/
theorem unique {t v w : Term} (hv : program.Evaluates t v) (hw : program.Evaluates t w) :
    v = w := by
  -- Both derivations drive one and the same machine to a result.
  have hfree : (⟨.reduce t, [], .empty, 0, .quiet, []⟩ : Machine).Unhindered .bare :=
    ⟨le_rfl, le_rfl, rfl⟩
  obtain ⟨m₁, hreach₁, hcontrol₁, hframes₁⟩ := hv.yields _ rfl hfree
  obtain ⟨m₂, hreach₂, hcontrol₂, hframes₂⟩ := hw.yields _ rfl hfree
  have hresult₁ : m₁.result? = some (.ok v) := result?_eq_ok_iff.2 ⟨hcontrol₁, hframes₁⟩
  have hresult₂ : m₂.result? = some (.ok w) := result?_eq_ok_iff.2 ⟨hcontrol₂, hframes₂⟩
  have hsame : m₁ = m₂ := hreach₁.result_unique hresult₁ hreach₂ hresult₂
  rw [hsame, hresult₂] at hresult₁
  cases hresult₁
  rfl

end Program.Evaluates

/-! ## From the machine to the semantics -/

namespace Machine

variable {program : Program} {config : Config}

/-- What an application comes to once its head is known to be a name. -/
def Continues (program : Program) (elems : List Term) (name : String) (v : Term) : Prop :=
  program.isValueHead name = true ∧ v = .app elems ∨
    program.isValueHead name = false ∧ ∃ clauses body,
      program.clauses.get? name = some clauses ∧
      Progress.Leads program.Evaluates elems.tail (Progress.start elems.tail clauses) body ∧
      program.Evaluates body v

/-- What a call that has got to a body hands on: the body, or what it evaluates to. -/
def HandsOn (program : Program) (goOn : Bool) (body v : Term) : Prop :=
  if goOn then program.Evaluates body v else body = v

/-- Handed a value, some frames come to another. -/
def Plugs (program : Program) : List Frame → Term → Term → Prop
  | [], w, v => w = v
  | .head elems :: frames, w, v =>
    ∃ name u, w = .ident name ∧ Continues program elems name u ∧ Plugs program frames u v
  | .call _ args attempt others goOn :: frames, w, v =>
    ∃ body u, Progress.Leads program.Evaluates args (attempt.resume args others w) body ∧
      HandsOn program goOn body u ∧ Plugs program frames u v

/-- The machine claims that it is right to come to a value. -/
def Answers (program : Program) (m : Machine) (v : Term) : Prop :=
  match m.control with
  | .reduce t => ∃ w, program.Evaluates t w ∧ Plugs program m.frames w v
  | .give w => Plugs program m.frames w v
  | .abandon _ => False

/-- An application evaluates to what it comes to once its head is known. -/
theorem Continues.evaluates {head arg : Term} {args : List Term} {name : String} {v : Term}
    (hhead : program.Evaluates head (.ident name))
    (h : Continues program (head :: arg :: args) name v) :
    program.Evaluates (.app (head :: arg :: args)) v := by
  rcases h with ⟨hvalue, rfl⟩ | ⟨hvalue, clauses, body, hclauses, hleads, hbody⟩
  · exact .constructor hhead hvalue
  · -- Every attempt asked for its arguments anew, but got the same values.
    obtain ⟨earlier, c, later, values, rfl, hlen, hvalues, hselects, rfl⟩ :=
      hleads.selects fun t v w (hv : program.Evaluates t v) hw => hv.unique hw
    exact .call hhead hvalue hclauses hlen hvalues hselects hbody

/-- A call that claims to come to a value is on its way to a body that does. -/
theorem answers_proceed {m : Machine} {name : String} {args : List Term} {goOn : Bool}
    {frames : List Frame} {progress : Progress} {v : Term}
    (h : Answers program (m.proceed name args goOn frames progress) v) :
    ∃ body u, Progress.Leads program.Evaluates args progress body ∧
      HandsOn program goOn body u ∧ Plugs program frames u v := by
  cases progress with
  | need arg attempt others =>
    obtain ⟨w, hw, body, u, hleads, hhands, hplugs⟩ := h
    exact ⟨body, u, .need hw hleads, hhands, hplugs⟩
  | matched body =>
    cases goOn with
    | true =>
      obtain ⟨u, hu, hplugs⟩ := h
      exact ⟨body, u, .matched body, hu, hplugs⟩
    | false => exact ⟨body, body, .matched body, rfl, h⟩
  | stuck => exact h.elim

/-- A machine about to call a function claims no more than what the function comes to. -/
theorem answers_call {m : Machine} {name : String} {args : List Term} {goOn : Bool}
    {frames : List Frame} {v : Term}
    (h : Answers program (m.call program config name args goOn frames) v) :
    ∃ clauses body u, program.clauses.get? name = some clauses ∧
      Progress.Leads program.Evaluates args (Progress.start args clauses) body ∧
      HandsOn program goOn body u ∧ Plugs program frames u v := by
  unfold call at h
  split at h
  · exact h.elim
  · split at h
    · rename_i clauses hclauses
      obtain ⟨body, u, hleads, hhands, hplugs⟩ := answers_proceed h
      exact ⟨clauses, body, u, hclauses, hleads, hhands, hplugs⟩
    · exact h.elim

theorem answers_reduceTerm {m : Machine} {t v : Term} (h : Answers program (m.reduceTerm t) v) :
    ∃ w, program.Evaluates t w ∧ Plugs program m.frames w v := by
  cases t with
  | ident name => exact ⟨_, .ident name, h⟩
  | group inner =>
    obtain ⟨w, hw, hplugs⟩ := h
    exact ⟨w, .group hw, hplugs⟩
  | seq kind elems =>
    cases kind with
    | application =>
      match elems, h with
      | [], h => exact ⟨_, .nothing, h⟩
      | [only], h =>
        obtain ⟨w, hw, hplugs⟩ := h
        exact ⟨w, .single hw, hplugs⟩
      | head :: arg :: args, h =>
        -- The value of the head was handed to the application, so it is a name.
        obtain ⟨w, hw, name, u, rfl, hcontinues, hplugs⟩ := h
        exact ⟨u, hcontinues.evaluates hw, hplugs⟩
    | arrow => exact ⟨_, .arrow elems, h⟩
    | entity => exact ⟨_, .entity elems, h⟩
  | rel kind left right => exact ⟨_, .rel kind left right, h⟩
  | builtin left right => exact ⟨_, .builtin left right, h⟩
  | marker => exact h.elim
  | builtinMarker => exact h.elim
  | hole => exact h.elim

theorem answers_giveValue {m : Machine} {value v : Term} (hm : m.control = .give value)
    (h : Answers program (m.giveValue program config value) v) :
    Plugs program m.frames value v := by
  rcases hframes : m.frames with _ | ⟨frame, frames⟩
  · simp only [giveValue, hframes, Answers, hm] at h
    exact h
  · cases frame with
    | head elems =>
      cases value with
      | ident name =>
        cases hvalue : program.isValueHead name with
        | true =>
          simp only [giveValue, hframes, if_pos hvalue] at h
          exact ⟨name, .app elems, rfl, .inl ⟨hvalue, rfl⟩, h⟩
        | false =>
          have hnot : ¬ program.isValueHead name = true := by simp [hvalue]
          simp only [giveValue, hframes, if_neg hnot] at h
          obtain ⟨clauses, body, u, hclauses, hleads, hbody, hplugs⟩ := answers_call h
          exact ⟨name, u, rfl, .inr ⟨hvalue, clauses, body, hclauses, hleads, hbody⟩, hplugs⟩
      | _ =>
        simp only [giveValue, hframes] at h
        exact h.elim
    | call name args attempt others goOn =>
      simp only [giveValue, hframes] at h
      exact answers_proceed h

/-- The claim made after a step implies the claim made before it. -/
theorem answers_of_step {m : Machine} {v : Term} (h : Answers program (m.step program config) v) :
    Answers program m v := by
  unfold Answers
  cases hm : m.control with
  | reduce t =>
    rw [step_reduce hm] at h
    exact answers_reduceTerm h
  | give value =>
    rw [step_give hm] at h
    exact answers_giveValue hm h
  | abandon f =>
    -- A machine that gives up claims nothing, and goes on giving up.
    rw [step_abandon hm] at h
    unfold abandonFrame at h
    split at h
    · simp only [Answers, hm] at h
    · simp only [Answers, hm] at h
    · exact h

/-- A machine that comes to a value was right to from the beginning. -/
theorem Reaches.answers {m m' : Machine} {v : Term} (h : Reaches program config m m')
    (hr : m'.result? = some (.ok v)) : Answers program m v := by
  -- The machine at the end claims that its value is its value; the claim is carried back.
  refine h.invariant_back (P := fun x => Answers program x v) (fun _ => answers_of_step) ?_
  obtain ⟨hcontrol, hframes⟩ := result?_eq_ok_iff.1 hr
  simp only [Answers, hcontrol, hframes, Plugs]

end Machine

/-! ## Evaluators -/

namespace Evaluator

/-- A value that comes of reducing a term is the term's value, whatever the settings. -/
theorem evaluates_of_reduce {e : Evaluator} {t v : Term}
    (h : (e.reduce t).outcome = .value v) : e.program.Evaluates t v := by
  rcases e.finish_cases (e.machine (.reduce t)) with hnone | ⟨m, r, hreach, hr, -, hfinish⟩
  · rw [reduce, hnone] at h
    cases h
  · rw [reduce, hfinish] at h
    cases r with
    | error f => cases h
    | ok w =>
      cases h
      obtain ⟨u, hu, hplugs⟩ := hreach.answers hr
      cases hplugs
      exact hu

/-- The evaluator with another limit to the calls it makes without a step budget. -/
def patient (e : Evaluator) (n : Nat) : Evaluator :=
  { e with config := { e.config with patience := n } }

/-- No step asks how patient the evaluator is. -/
theorem reaches_patient (e : Evaluator) (n : Nat) :
    Reaches (e.patient n).program (e.patient n).config = Reaches e.program e.config :=
  rfl

/-- **Refinement.** Without budgets and without an interrupt, a term evaluates to a value exactly
    if an evaluator, given enough patience, reduces the term to it. -/
theorem evaluates_iff_reduce (e : Evaluator) (hsteps : e.config.maxSteps ≤ 0)
    (hdepth : e.config.maxDepth ≤ 0) (hsignal : e.signal = .quiet) (t v : Term) :
    e.program.Evaluates t v ↔
      ∃ n, ∀ patience ≥ n, ((e.patient patience).reduce t).outcome = .value v := by
  constructor
  · intro h
    have hfree : (e.machine (.reduce t)).Unhindered e.config := ⟨hsteps, hdepth, hsignal⟩
    obtain ⟨m, hreach, hcontrol, hframes⟩ := h.yields _ rfl hfree
    have hresult : m.result? = some (.ok v) := result?_eq_ok_iff.2 ⟨hcontrol, hframes⟩
    -- The calls that the run takes are the patience that is needed.
    refine ⟨m.steps, fun patience hle => ?_⟩
    have hhorizon : m.steps ≤ (e.patient patience).config.horizon := by
      show m.steps ≤ if 0 < e.config.maxSteps then e.config.maxSteps.toNat else patience
      rw [if_neg (by omega)]
      exact hle
    rw [reduce, finish_of_reaches (e.reaches_patient patience ▸ hreach) hresult hhorizon]
    rfl
  · rintro ⟨n, h⟩
    have hn := evaluates_of_reduce (h n le_rfl)
    exact hn

/-- Two functions: one gives its first argument and looks at no other, one never comes to an
    end. -/
def keepDeclarations : List Term :=
  [.define (.app [.ident "keep", .ident "X"]) (.ident "X"),
    .define (.app [.ident "spin", .ident "X"]) (.app [.ident "spin", .ident "X"])]

/-- The clause of the function that gives its first argument. -/
def keepClause : Clause := ⟨"keep", [.var "X"], .ident "X", [.ident "keep", .ident "X"]⟩

/-- The clause of the function that never comes to an end. -/
def spinClause : Clause :=
  ⟨"spin", [.var "X"], .app [.ident "spin", .ident "X"], [.ident "spin", .ident "X"]⟩

/-- The program that the two functions make. -/
def keepProgram : Program :=
  ⟨.empty, ⟨[("keep", [keepClause]), ("spin", [spinClause])]⟩, .empty, []⟩

/-- An argument that is not needed may have no value. -/
theorem keep_evaluates : keepProgram.Evaluates
    (.app [.ident "keep", .ident "a", .app [.ident "spin", .ident "a"]]) (.ident "a") := by
  have hselects : Selects [] keepClause 2 [.ident "a"] := by
    refine .of_accepts ⟨by decide, by decide, ?_⟩ rfl
    intro i p v hp hv
    cases i with
    | zero =>
      cases hp
      exact trivial
    | succ i => simp [keepClause] at hp
  have hclauses : keepProgram.clauses.get? "keep" = some ([] ++ keepClause :: []) := rfl
  refine .call (.ident "keep") (by decide) hclauses (by decide) ?_ hselects (.ident "a")
  intro i t w ht hw
  cases i with
  | zero =>
    cases ht
    cases hw
    exact .ident "a"
  | succ i => simp at hw

theorem evaluates_iff_reduce_keep :
    Program.load false keepDeclarations = .ok keepProgram ∧
      ∃ n, ∀ patience ≥ n,
        (((new keepProgram .bare .quiet).patient patience).reduce
          (.app [.ident "keep", .ident "a", .app [.ident "spin", .ident "a"]])).outcome
            = .value (.ident "a") :=
  ⟨rfl, (evaluates_iff_reduce (new keepProgram .bare .quiet) (by decide) (by decide) rfl _ _).1
    keep_evaluates⟩

end Evaluator

end Clausal
