/-
  Clausal.Proofs.Erasure

  Machines without groups. Everything that a machine works on can have its groups taken off: the
  program, attempts to match, frames, open calls, events. A step of the machine commutes with this,
  except that opening a group leaves the machine without groups where it is (`Machine.strip_step`,
  `Machine.strip_step_of_opens`). So a run of a machine without its groups is the run of the
  machine, without its groups (`Machine.run_strip`).

  Two things have to be watched. A value that is handed to a frame is never a group, since a name in
  a group would be taken for a head that is no name (`Machine.Direct`). And failures tell of terms
  by their texts, which do not show groups as long as no term is missing.
-/
import Clausal.Proofs.Contents
import Clausal.Proofs.Strip

namespace Clausal

open Term

/-- A term of names, groups, applications and arrows. -/
abbrev Term.Basic : Term → Prop := Term.Formed (fun _ => True) 0

/-! ## Programs -/

namespace Environment

variable {α β : Type}

/-- The table with another value for each name. -/
def map (f : α → β) (e : Environment α) : Environment β := ⟨e.entries.map fun x => (x.1, f x.2)⟩

@[simp] theorem get?_map (f : α → β) (e : Environment α) (name : String) :
    (e.map f).get? name = (e.get? name).map f := by
  rw [get?, get?, map]
  induction e.entries with
  | nil => rfl
  | cons x rest ih =>
    rw [List.map_cons, List.lookup_cons, List.lookup_cons, ih]
    split <;> rfl

@[simp] theorem contains_map (f : α → β) (e : Environment α) (name : String) :
    (e.map f).contains name = e.contains name := by
  rw [contains, contains, get?_map, Option.isSome_map]

theorem map_put (f : α → β) (e : Environment α) (name : String) (value : α) :
    (e.put name value).map f = (e.map f).put name (f value) := by
  rw [put, put, contains_map]
  split
  · simp only [map, List.map_map, mk.injEq]
    refine List.map_congr_left fun x _ => ?_
    simp only [Function.comp_apply]
    split <;> rfl
  · simp [map]

end Environment

def Clause.strip (c : Clause) : Clause :=
  { c with body := c.body.strip, left := c.left.map Term.strip }

/-- The program as it would be loaded without groups. -/
def Program.strip (p : Program) : Program where
  types := p.types.map Term.strip
  clauses := p.clauses.map (List.map Clause.strip)
  bindings := p.bindings.map Term.strip
  constructors := p.constructors

@[simp] theorem Program.isValueHead_strip (p : Program) (name : String) :
    p.strip.isValueHead name = p.isValueHead name := by
  rw [isValueHead, isValueHead, strip, Environment.contains_map]
  rfl

/-! ## Matching -/

theorem Pattern.ofTerm_strip (t : Term) : ofTerm t.strip = ofTerm t := by
  rw [ofTerm, ofTerm, strip_strip]

def Bindings.strip (bound : Bindings) : Bindings := bound.map fun b => (b.1, b.2.strip)

theorem Bindings.strip_bind (name : String) (value : Term) (bound : Bindings) :
    (bind name value bound).strip = bind name value.strip bound.strip := by
  induction bound with
  | nil => rfl
  | cons entry rest ih =>
    have hcons : Bindings.strip (entry :: rest)
        = (entry.1, entry.2.strip) :: Bindings.strip rest := rfl
    rw [hcons, bind, bind]
    split
    · rfl
    · rw [← ih]
      rfl

theorem Bindings.strip_apply (bound : Bindings) (body : Term) :
    (apply bound body).strip = apply bound.strip body.strip := by
  induction bound generalizing body with
  | nil => rfl
  | cons entry rest ih =>
    have hstep := ih (subst (.ident entry.1) entry.2 body)
    rw [strip_subst] at hstep
    exact hstep

def Attempt.strip (a : Attempt) : Attempt :=
  { a with
    bound := a.bound.strip
    args := a.args.map Term.strip
    body := a.body.strip }

def Progress.strip : Progress → Progress
  | .need arg attempt others => .need arg.strip attempt.strip (others.map Clause.strip)
  | .matched body => .matched body.strip
  | .stuck => .stuck

theorem Progress.strip_start (args : List Term) (clauses : List Clause) :
    (start args clauses).strip = start (args.map Term.strip) (clauses.map Clause.strip) := by
  induction clauses with
  | nil => rfl
  | cons c others ih =>
    rw [List.map_cons]
    unfold start
    have hparams : c.strip.params = c.params := rfl
    rw [hparams]
    rcases c.params with _ | ⟨pattern, patterns⟩
    · rfl
    · rcases args with _ | ⟨arg, rest⟩
      · exact ih
      · simp only [List.map_cons, List.length_map] at ih ⊢
        split
        · rfl
        · exact ih

theorem Attempt.accept?_strip (a : Attempt) (value : Term) :
    a.strip.accept? value.strip = (a.accept? value).map Bindings.strip := by
  rw [accept?, accept?]
  have hpending : a.strip.pending = a.pending := rfl
  rw [hpending]
  cases a.pending with
  | wildcard => rfl
  | var name => exact congrArg some (Bindings.strip_bind name value a.bound).symm
  | literal t =>
    simp only [strip_strip]
    split <;> rfl

theorem Attempt.advance_strip (a : Attempt) (bound : Bindings) (others : List Clause) :
    (a.advance bound others).strip = a.strip.advance bound.strip (others.map Clause.strip) := by
  rw [advance, advance]
  have hpatterns : a.strip.patterns = a.patterns := rfl
  have hargs : a.strip.args = a.args.map Term.strip := rfl
  rw [hpatterns, hargs]
  rcases a.patterns with _ | ⟨pattern, patterns⟩
  · exact congrArg Progress.matched (Bindings.strip_apply bound a.body)
  · rcases a.args with _ | ⟨arg, rest⟩
    · exact congrArg Progress.matched (Bindings.strip_apply bound a.body)
    · rfl

theorem Attempt.resume_strip (a : Attempt) (args : List Term) (others : List Clause)
    (value : Term) :
    (a.resume args others value).strip
      = a.strip.resume (args.map Term.strip) (others.map Clause.strip) value.strip := by
  rw [resume, resume, accept?_strip]
  cases a.accept? value with
  | none => exact Progress.strip_start args others
  | some bound => exact advance_strip a bound others

/-! ## Machines -/

def OpenCall.strip (c : OpenCall) : OpenCall := { c with args := c.args.map Term.strip }

def CallStack.strip (s : CallStack) : CallStack where
  calls := s.calls.map OpenCall.strip
  depth := s.depth
  depth_eq := by rw [List.length_map, s.depth_eq]

@[simp] theorem CallStack.strip_pop (s : CallStack) : s.pop.strip = s.strip.pop :=
  eq_of_calls List.map_tail

@[simp] theorem CallStack.strip_push (s : CallStack) (c : OpenCall) :
    (s.push c).strip = s.strip.push c.strip := eq_of_calls rfl

def Event.strip : Event Failure → Event Failure
  | .enter depth name args => .enter depth name (args.map Term.strip)
  | .leave depth name result => .leave depth name (result.map Term.strip)

def Frame.strip : Frame → Frame
  | .head elems => .head (elems.map Term.strip)
  | .call name args attempt others goOn =>
    .call name (args.map Term.strip) attempt.strip (others.map Clause.strip) goOn

def Control.strip : Control → Control
  | .reduce t => .reduce t.strip
  | .give value => .give value.strip
  | .abandon f => .abandon f

namespace Machine

/-- The machine with the groups taken off all that it holds. -/
def strip (m : Machine) : Machine :=
  { m with
    control := m.control.strip
    frames := m.frames.map Frame.strip
    calls := m.calls.strip
    events := m.events.map Event.strip }

theorem strip_leave (m : Machine) (name : String) (result : Except Failure Term)
    (control : Control) (frames : List Frame) :
    (m.leave name result control frames).strip
      = m.strip.leave name (result.map Term.strip) control.strip (frames.map Frame.strip) := by
  simp only [strip, leave, CallStack.strip_pop]
  rfl

theorem strip_opened (m : Machine) (name : String) (args : List Term) :
    (m.opened name args).strip = m.strip.opened name (args.map Term.strip) := by
  simp only [strip, opened, CallStack.strip_push]
  rfl

@[simp] theorem refusal?_strip (config : Config) (m : Machine) :
    m.strip.refusal? config = m.refusal? config := rfl

/-- The terms of an evaluation that shows none of its groups: no term is missing. -/
def grouped : Contents :=
  ⟨Term.Basic, fun c => ∀ x ∈ c.args, x.Basic, fun _ => True⟩

theorem grouped_kept : grouped.Kept where
  inner := by
    rintro t (_ | ht)
    exact ht
  element := by
    rintro xs (_ | _ | ⟨_, _, hxs⟩)
    exact hxs
  subst n ht hr := ht.subst hr n
  stray := by
    rintro t stack ht (rfl | rfl) <;> cases ht
  absent ht := by
    cases ht
  call hargs := hargs
  fault _ := trivial
  head _ _ := trivial

theorem map_render_strip {args : List Term} (h : ∀ x ∈ args, grouped.term x) :
    (args.map Term.strip).map render = args.map render := by
  rw [List.map_map]
  refine List.map_congr_left fun x hx => ?_
  exact (h x hx).solid.render_strip

/-- Open calls are reported by the texts of their arguments, which show no groups. -/
theorem failure_strip {m : Machine} (h : grouped.Holds m) (name : String) (cause : Cause) :
    m.strip.failure name cause = m.failure name cause := by
  have hsites : m.calls.strip.sites = m.calls.sites := by
    have hcalls : (m.calls.calls.map OpenCall.strip).map OpenCall.site
        = m.calls.calls.map OpenCall.site := by
      rw [List.map_map]
      refine List.map_congr_left fun c hc => ?_
      exact congrArg (Site.mk c.name) (map_render_strip (h.calls c hc))
    exact congrArg List.reverse hcalls
  rw [failure, failure, show m.strip.calls = m.calls.strip from rfl, hsites]

theorem strip_fail {m : Machine} (h : grouped.Holds m) (name : String) (cause : Cause)
    (frames : List Frame) :
    (m.fail name cause frames).strip = m.strip.fail name cause (frames.map Frame.strip) := by
  simp only [fail, strip_leave, failure_strip h]
  rfl

theorem strip_proceed {m : Machine} (h : grouped.Holds m) (name : String) (args : List Term)
    (goOn : Bool) (frames : List Frame) (progress : Progress) :
    (m.proceed name args goOn frames progress).strip
      = m.strip.proceed name (args.map Term.strip) goOn (frames.map Frame.strip)
        progress.strip := by
  cases progress with
  | need arg attempt others => rfl
  | matched body =>
    rw [proceed, strip_leave, Progress.strip, proceed]
    cases goOn <;> rfl
  | stuck => exact strip_fail h name .noMatchingClause frames

theorem strip_call {m : Machine} (h : grouped.Holds m) (program : Program) (config : Config)
    (name : String) {args : List Term} (hargs : ∀ x ∈ args, grouped.term x) (goOn : Bool)
    (frames : List Frame) :
    (m.call program config name args goOn frames).strip
      = m.strip.call program.strip config name (args.map Term.strip) goOn
        (frames.map Frame.strip) := by
  have hopened := h.opened grouped_kept name hargs
  rw [call, call, refusal?_strip]
  cases m.refusal? config with
  | some cause =>
    simp only [failure_strip h]
    rfl
  | none =>
    simp only [← strip_opened]
    have hclauses : program.strip.clauses.get? name
        = (program.clauses.get? name).map (List.map Clause.strip) := Environment.get?_map _ _ _
    rw [hclauses]
    cases program.clauses.get? name with
    | some clauses =>
      rw [Option.map_some]
      simp only [← Progress.strip_start]
      exact strip_proceed hopened name args goOn frames _
    | none => exact strip_fail hopened name .unknownFunction frames

/-! ## Values without groups -/

/-- Whether what a call gives is reduced in its turn. -/
def goesOn : Frame → Bool
  | .head _ => true
  | .call _ _ _ _ goOn => goOn

/-- No value in hand is a group, because whatever a call gives is reduced first. -/
structure Direct (m : Machine) : Prop where
  value : ∀ v, m.control = .give v → v.isGroup = false
  frames : ∀ f ∈ m.frames, goesOn f = true

namespace Direct

variable {m : Machine} {program : Program} {config : Config}

theorem proceed (name : String) (args : List Term) {frames : List Frame}
    (hframes : ∀ f ∈ frames, goesOn f = true) (progress : Progress) :
    (m.proceed name args true frames progress).Direct := by
  cases progress with
  | need arg attempt others =>
    refine ⟨?_, List.forall_mem_cons.2 ⟨rfl, hframes⟩⟩
    rintro v ⟨⟩
  | matched body =>
    refine ⟨?_, hframes⟩
    rintro v ⟨⟩
  | stuck =>
    refine ⟨?_, hframes⟩
    rintro v ⟨⟩

theorem call (name : String) (args : List Term) {frames : List Frame}
    (hframes : ∀ f ∈ frames, goesOn f = true) :
    (m.call program config name args true frames).Direct := by
  unfold Machine.call
  split
  · refine ⟨?_, hframes⟩
    rintro v ⟨⟩
  · simp only
    split
    · exact proceed name args hframes _
    · refine ⟨?_, hframes⟩
      rintro v ⟨⟩

theorem reduceTerm (h : m.Direct) (t : Term) : (m.reduceTerm t).Direct := by
  unfold Machine.reduceTerm
  split
  case h_2 =>
    refine ⟨?_, h.frames⟩
    rintro v ⟨⟩
    rfl
  case h_4 =>
    refine ⟨?_, List.forall_mem_cons.2 ⟨rfl, h.frames⟩⟩
    rintro v ⟨⟩
  case h_8 =>
    -- What is given as it is, is no group: a group is opened.
    rename_i hgroup _ _ _ _ _ _
    refine ⟨?_, h.frames⟩
    rintro v ⟨⟩
    cases t <;> first | rfl | exact absurd rfl (hgroup _)
  all_goals
    refine ⟨?_, h.frames⟩
    rintro v ⟨⟩

theorem step (h : m.Direct) : (m.step program config).Direct := by
  have hframes := h.frames
  unfold Machine.step
  split
  · exact h.reduceTerm _
  · unfold giveValue
    split
    · exact h
    · rename_i elems frames hm
      rw [hm, List.forall_mem_cons] at hframes
      split
      · split
        · refine ⟨?_, hframes.2⟩
          rintro v ⟨⟩
          rfl
        · exact call _ _ hframes.2
      · refine ⟨?_, hframes.2⟩
        rintro v ⟨⟩
    · rename_i name args attempt others goOn frames hm
      rw [hm, List.forall_mem_cons] at hframes
      obtain ⟨rfl, hframes⟩ : goOn = true ∧ _ := hframes
      exact proceed name args hframes _
  · rename_i f hcontrol
    unfold abandonFrame
    split
    · exact h
    · rename_i elems frames hm
      rw [hm, List.forall_mem_cons] at hframes
      refine ⟨?_, hframes.2⟩
      intro v hv
      have hv : m.control = .give v := hv
      rw [hcontrol] at hv
      cases hv
    · rename_i name args attempt others goOn frames hm
      rw [hm, List.forall_mem_cons] at hframes
      refine ⟨?_, hframes.2⟩
      rintro v ⟨⟩

end Direct

/-! ## Steps -/

/-- Opening a group leaves the machine without groups where it is. -/
theorem strip_reduceTerm_group (m : Machine) {t : Term} (h : m.control = .reduce (.group t)) :
    (m.reduceTerm (.group t)).strip = m.strip := by
  simp only [reduceTerm, strip, h]
  rfl

theorem strip_reduceTerm (m : Machine) {t : Term} (ht : grouped.term t)
    (hgroup : t.isGroup = false) : (m.reduceTerm t).strip = m.strip.reduceTerm t.strip := by
  cases ht with
  | ident _ => rfl
  | group _ => cases hgroup
  | @seq k xs hk _ _ =>
    rw [Term.strip, stripAll_eq_map]
    cases k with
    | application =>
      rcases xs with _ | ⟨x, _ | ⟨y, ys⟩⟩
      · rfl
      · rfl
      · rfl
    | arrow => simp [reduceTerm, strip, Control.strip, Term.strip]
    | entity => exact absurd rfl hk

theorem strip_giveValue {m : Machine} (h : grouped.Holds m) (program : Program) (config : Config)
    {value : Term} (hvalue : grouped.term value) (hgroup : value.isGroup = false) :
    (m.giveValue program config value).strip
      = m.strip.giveValue program.strip config value.strip := by
  have hframes : m.strip.frames = m.frames.map Frame.strip := rfl
  have hheld := h.frames
  rw [giveValue, giveValue, hframes]
  cases hm : m.frames with
  | nil => rfl
  | cons frame frames =>
    rw [hm, List.forall_mem_cons] at hheld
    cases frame with
    | head elems =>
      have hargs : ∀ x ∈ elems.tail, grouped.term x :=
        fun x hx => grouped_kept.element hheld.1 x (List.mem_of_mem_tail hx)
      have hrender := hvalue.solid.render_strip
      cases hvalue with
      | @ident name _ =>
        simp only [List.map_cons, Frame.strip, Term.strip, Program.isValueHead_strip]
        split
        · simp [strip, Control.strip, Term.strip]
        · rw [strip_call h program config name hargs true frames, List.map_tail]
      | group _ => cases hgroup
      | @seq k xs _ _ _ =>
        -- The head is no name, with groups or without.
        simp only [List.map_cons, Frame.strip, Term.strip, stripAll_eq_map] at hrender ⊢
        rw [hrender, failure_strip h]
        rfl
    | call name args attempt others goOn =>
      rw [strip_proceed h, Attempt.resume_strip]
      rfl

theorem strip_abandonFrame (m : Machine) (f : Failure) :
    (m.abandonFrame f).strip = m.strip.abandonFrame f := by
  have hframes : m.strip.frames = m.frames.map Frame.strip := rfl
  rw [abandonFrame, abandonFrame, hframes]
  cases m.frames with
  | nil => rfl
  | cons frame frames =>
    cases frame with
    | head elems => rfl
    | call name args attempt others goOn => exact strip_leave m name _ _ frames

/-- The machine is about to open a group. -/
def Opens (m : Machine) : Prop := ∃ t, m.control = .reduce (.group t)

theorem strip_step_of_opens {m : Machine} (h : m.Opens) (program : Program) (config : Config) :
    (m.step program config).strip = m.strip := by
  obtain ⟨t, ht⟩ := h
  rw [step, ht]
  exact strip_reduceTerm_group m ht

/-- Any other step commutes with taking the groups off. -/
theorem strip_step {m : Machine} (hheld : grouped.Holds m) (hdirect : m.Direct) (h : ¬ m.Opens)
    (program : Program) (config : Config) :
    (m.step program config).strip = m.strip.step program.strip config := by
  have hcontrol := hheld.control
  have hstripped : m.strip.control = m.control.strip := rfl
  rw [step, step, hstripped]
  cases hm : m.control with
  | reduce t =>
    rw [hm] at hcontrol
    have hgroup : t.isGroup = false := by
      cases t with
      | group t => exact absurd ⟨t, hm⟩ h
      | _ => rfl
    exact strip_reduceTerm m hcontrol hgroup
  | give value =>
    rw [hm] at hcontrol
    exact strip_giveValue hheld program config hcontrol (hdirect.value value hm)
  | abandon f => exact strip_abandonFrame m f

/-! ## Runs -/

theorem result?_strip (m : Machine) : m.strip.result? = m.result?.map (Except.map Term.strip) := by
  obtain ⟨control, frames, calls, steps, signal, events⟩ := m
  cases control <;> cases frames <;> rfl

/-- A run of the machine without its groups is the run of the machine, without its groups. -/
theorem run_strip {program : Program} (hprogram : grouped.OfProgram program) (config : Config)
    (limit : Nat) {m : Machine} (hheld : grouped.Holds m) (hdirect : m.Direct) :
    m.strip.run program.strip config limit =
      ((m.run program config limit).1.map (Except.map Term.strip),
        (m.run program config limit).2.strip) := by
  induction m using run.induct program config limit with
  | case1 m r hr =>
    have hr' : m.strip.result? = some (r.map Term.strip) := by
      rw [result?_strip, hr, Option.map_some]
    rw [run_of_result limit hr, run_of_result limit hr']
    rfl
  | case2 m hr next hle ih =>
    have hr' : m.strip.result? = none := by rw [result?_strip, hr, Option.map_none]
    have hnext := ih (hheld.step grouped_kept hprogram) hdirect.step
    rw [run_of_step hr hle]
    by_cases hopens : m.Opens
    · rw [strip_step_of_opens hopens] at hnext
      exact hnext
    · have hstep := strip_step hheld hdirect hopens program config
      have hle' : (m.strip.step program.strip config).steps ≤ limit := by
        rw [← hstep]
        exact hle
      rw [run_of_step hr' hle', ← hstep]
      exact hnext
  | case3 m hr next hgt =>
    have hr' : m.strip.result? = none := by rw [result?_strip, hr, Option.map_none]
    have hgt' : ¬ (m.strip.step program.strip config).steps ≤ limit := by
      by_cases hopens : m.Opens
      · -- Opening a group enters no call, so the limit was passed before.
        have hsteps : (m.step program config).steps = m.steps := by
          show (m.step program config).strip.steps = m.strip.steps
          rw [strip_step_of_opens hopens]
        have hle : m.steps ≤ (m.strip.step program.strip config).steps := steps_le_step m.strip
        have hgt : ¬ (m.step program config).steps ≤ limit := hgt
        omega
      · rw [← strip_step hheld hdirect hopens program config]
        exact hgt
    rw [run_of_exceeded hr hgt, run_of_exceeded hr' hgt']
    rfl

end Machine

end Clausal
