/-
  Clausal.Proofs.Contents

  What a machine holds. `Contents` says which terms, open calls and failures may occur, and
  `Contents.Kept` that these are closed under what a step does: a group is opened, an application is
  taken apart, a value is put in the place of a variable. Then a machine that holds nothing else
  goes on to hold nothing else (`Holds.step`), and so does a whole evaluation, in the terms it
  returns, the arguments and results that it tells of and the failure it may end in
  (`Holds.finish`).
-/
import Clausal.Proofs.Moves

namespace Clausal

/-- The terms, the open calls and the failures that may occur in an evaluation. -/
structure Contents where
  term : Term → Prop
  call : OpenCall → Prop
  failure : Failure → Prop

namespace Contents

/-- What may occur is closed under what a machine does. -/
structure Kept (c : Contents) : Prop where
  inner : ∀ {t : Term}, c.term (.group t) → c.term t
  element : ∀ {xs : List Term}, c.term (.app xs) → ∀ x ∈ xs, c.term x
  subst : ∀ {t r : Term} (n : String), c.term t → c.term r → c.term (Term.subst (.ident n) r t)
  /-- A marker fails, and so does a missing term, where they may come up. -/
  stray : ∀ {t : Term} {stack : List Site}, c.term t → t = .marker ∨ t = .builtinMarker →
    c.failure (.failed ⟨t.render, stack, .strayMarker⟩)
  absent : c.term .hole → c.failure .absent
  call : ∀ {name : String} {args : List Term}, (∀ x ∈ args, c.term x) → c.call ⟨name, args⟩
  /-- A call may fail for want of a clause, or because it may not be entered. -/
  fault : ∀ {name : String} {stack : List Site} {cause : Cause},
    cause ∈ [.unknownFunction, .noMatchingClause, .stepBudget, .depthBudget, .interrupted] →
      c.failure (.failed ⟨name, stack, cause⟩)
  /-- The head of an application may turn out to be no name. -/
  head : ∀ {t : Term} {stack : List Site}, c.term t → t.isIdent = false →
    c.failure (.failed ⟨t.render, stack, .malformedHead⟩)

/-! ## Holding -/

variable (c : Contents)

def OfClauses (clauses : List Clause) : Prop := ∀ x ∈ clauses, c.term x.body

structure OfAttempt (a : Attempt) : Prop where
  bound : ∀ b ∈ a.bound, c.term b.2
  args : ∀ x ∈ a.args, c.term x
  body : c.term a.body

def OfFrame : Frame → Prop
  | .head elems => c.term (.app elems)
  | .call _ args attempt others _ =>
    (∀ x ∈ args, c.term x) ∧ c.OfAttempt attempt ∧ c.OfClauses others

def OfControl : Control → Prop
  | .reduce t => c.term t
  | .give value => c.term value
  | .abandon f => c.failure f

def OfResult : Except Failure Term → Prop
  | .ok t => c.term t
  | .error f => c.failure f

def OfEvent : Event Failure → Prop
  | .enter _ _ args => ∀ x ∈ args, c.term x
  | .leave _ _ result => c.OfResult result

def OfProgress : Progress → Prop
  | .need arg attempt others => c.term arg ∧ c.OfAttempt attempt ∧ c.OfClauses others
  | .matched body => c.term body
  | .stuck => True

/-- The clauses of a program are made of terms that may occur. -/
def OfProgram (program : Program) : Prop :=
  ∀ name clauses, program.clauses.get? name = some clauses → c.OfClauses clauses

/-- A machine holds nothing but what may occur. -/
structure Holds (m : Machine) : Prop where
  control : c.OfControl m.control
  frames : ∀ f ∈ m.frames, c.OfFrame f
  calls : ∀ x ∈ m.calls.calls, c.call x
  events : ∀ e ∈ m.events, c.OfEvent e

/-! ## Matching -/

variable {c}

theorem bind_kept {bound : Bindings} (h : ∀ b ∈ bound, c.term b.2) {value : Term}
    (hvalue : c.term value) (name : String) : ∀ b ∈ Bindings.bind name value bound, c.term b.2 := by
  induction bound with
  | nil =>
    rw [Bindings.bind, List.forall_mem_singleton]
    exact hvalue
  | cons entry rest ih =>
    rw [List.forall_mem_cons] at h
    rw [Bindings.bind]
    split
    · exact List.forall_mem_cons.2 ⟨hvalue, h.2⟩
    · exact List.forall_mem_cons.2 ⟨h.1, ih h.2⟩

theorem apply_kept (hc : c.Kept) {bound : Bindings} (h : ∀ b ∈ bound, c.term b.2) {body : Term}
    (hbody : c.term body) : c.term (Bindings.apply bound body) := by
  rw [Bindings.apply]
  induction bound generalizing body with
  | nil => exact hbody
  | cons entry rest ih =>
    rw [List.forall_mem_cons] at h
    exact ih h.2 (hc.subst entry.1 hbody h.1)

theorem start_kept {args : List Term} (hargs : ∀ x ∈ args, c.term x) {clauses : List Clause}
    (h : c.OfClauses clauses) : c.OfProgress (Progress.start args clauses) := by
  induction clauses with
  | nil => exact trivial
  | cons clause others ih =>
    rw [OfClauses, List.forall_mem_cons] at h
    obtain ⟨hclause, hothers⟩ := h
    unfold Progress.start
    split
    · exact hclause
    · rename_i pattern patterns arg rest hparams
      rw [List.forall_mem_cons] at hargs
      split
      · refine ⟨hargs.1, ⟨?_, hargs.2, hclause⟩, hothers⟩
        intro b hb
        cases hb
      · exact ih hothers
    · exact ih hothers

theorem accept?_kept {a : Attempt} (ha : c.OfAttempt a) {value : Term} (hvalue : c.term value)
    {bound : Bindings} (h : a.accept? value = some bound) : ∀ b ∈ bound, c.term b.2 := by
  rw [Attempt.accept?] at h
  split at h
  · cases h
    exact ha.bound
  · cases h
    exact bind_kept ha.bound hvalue _
  · split at h
    · cases h
      exact ha.bound
    · cases h

theorem resume_kept (hc : c.Kept) {a : Attempt} (ha : c.OfAttempt a) {args : List Term}
    (hargs : ∀ x ∈ args, c.term x) {others : List Clause} (hothers : c.OfClauses others)
    {value : Term} (hvalue : c.term value) : c.OfProgress (a.resume args others value) := by
  rw [Attempt.resume]
  split
  · rename_i bound hbound
    have hall := accept?_kept ha hvalue hbound
    rw [Attempt.advance]
    split
    · rename_i pattern patterns arg rest hpatterns hrest
      have hmore := ha.args
      rw [hrest, List.forall_mem_cons] at hmore
      exact ⟨hmore.1, ⟨hall, hmore.2, ha.body⟩, hothers⟩
    · exact apply_kept hc hall ha.body
  · exact start_kept hargs hothers

/-! ## Steps -/

namespace Holds

variable {m : Machine}

theorem leave (h : c.Holds m) (name : String) {result : Except Failure Term}
    (hresult : c.OfResult result) {control : Control} (hcontrol : c.OfControl control)
    {frames : List Frame} (hframes : ∀ f ∈ frames, c.OfFrame f) :
    c.Holds (m.leave name result control frames) where
  control := hcontrol
  frames := hframes
  calls x hx := h.calls x (List.mem_of_mem_tail hx)
  events := List.forall_mem_cons.2 ⟨hresult, h.events⟩

theorem fail (hc : c.Kept) (h : c.Holds m) (name : String) {cause : Cause}
    (hcause : cause ∈
      [.unknownFunction, .noMatchingClause, .stepBudget, .depthBudget, .interrupted])
    {frames : List Frame} (hframes : ∀ f ∈ frames, c.OfFrame f) :
    c.Holds (m.fail name cause frames) := by
  have hfault : c.failure (m.failure name cause) := hc.fault hcause
  refine h.leave name ?_ ?_ hframes
  · exact hfault
  · exact hfault

theorem proceed (hc : c.Kept) (h : c.Holds m) (name : String) {args : List Term}
    (hargs : ∀ x ∈ args, c.term x) (goOn : Bool) {frames : List Frame}
    (hframes : ∀ f ∈ frames, c.OfFrame f) {progress : Progress}
    (hprogress : c.OfProgress progress) : c.Holds (m.proceed name args goOn frames progress) := by
  cases progress with
  | need arg attempt others =>
    obtain ⟨harg, hattempt, hothers⟩ := hprogress
    exact ⟨harg, List.forall_mem_cons.2 ⟨⟨hargs, hattempt, hothers⟩, hframes⟩, h.calls, h.events⟩
  | matched body =>
    have hbody : c.term body := hprogress
    refine h.leave name ?_ ?_ hframes
    · exact hbody
    · cases goOn <;> exact hbody
  | stuck => exact h.fail hc name (by decide) hframes

theorem opened (hc : c.Kept) (h : c.Holds m) (name : String) {args : List Term}
    (hargs : ∀ x ∈ args, c.term x) : c.Holds (m.opened name args) where
  control := h.control
  frames := h.frames
  calls := List.forall_mem_cons.2 ⟨hc.call hargs, h.calls⟩
  events := List.forall_mem_cons.2 ⟨hargs, h.events⟩

/-- A failure that is put together between two calls. -/
theorem fault (h : c.Holds m) {f : Failure} (hf : c.failure f) {frames : List Frame}
    (hframes : ∀ x ∈ frames, c.OfFrame x) :
    c.Holds { m with control := .abandon f, frames := frames } :=
  ⟨hf, hframes, h.calls, h.events⟩

theorem call {program : Program} {config : Config} (hc : c.Kept) (hprogram : c.OfProgram program)
    (h : c.Holds m) (name : String) {args : List Term} (hargs : ∀ x ∈ args, c.term x) (goOn : Bool)
    {frames : List Frame} (hframes : ∀ f ∈ frames, c.OfFrame f) :
    c.Holds (m.call program config name args goOn frames) := by
  unfold Machine.call
  split
  · rename_i cause hrefusal
    refine h.fault (hc.fault ?_) hframes
    unfold Machine.refusal? at hrefusal
    -- A call is refused for an interrupt or for one of the budgets.
    split at hrefusal
    · cases hrefusal
      decide
    · split at hrefusal
      · cases hrefusal
        decide
      · split at hrefusal
        · cases hrefusal
          decide
        · cases hrefusal
  · have hopened := h.opened hc name hargs
    split
    · rename_i clauses hclauses
      exact hopened.proceed hc name hargs goOn hframes (start_kept hargs (hprogram _ _ hclauses))
    · exact hopened.fail hc name (by decide) hframes

theorem reduceTerm (hc : c.Kept) (h : c.Holds m) {t : Term} (ht : c.term t) :
    c.Holds (m.reduceTerm t) := by
  unfold Machine.reduceTerm
  split
  · exact ⟨hc.inner ht, h.frames, h.calls, h.events⟩
  · exact ⟨ht, h.frames, h.calls, h.events⟩
  · exact ⟨hc.element ht _ List.mem_cons_self, h.frames, h.calls, h.events⟩
  · exact ⟨hc.element ht _ List.mem_cons_self, List.forall_mem_cons.2 ⟨ht, h.frames⟩, h.calls,
      h.events⟩
  · exact h.fault (hc.stray ht (.inl rfl)) h.frames
  · exact h.fault (hc.stray ht (.inr rfl)) h.frames
  · exact h.fault (hc.absent ht) h.frames
  · exact ⟨ht, h.frames, h.calls, h.events⟩

theorem giveValue {program : Program} {config : Config} (hc : c.Kept)
    (hprogram : c.OfProgram program) (h : c.Holds m) {value : Term} (hvalue : c.term value) :
    c.Holds (m.giveValue program config value) := by
  have hframes := h.frames
  unfold Machine.giveValue
  split
  · exact h
  · rename_i elems frames hm
    rw [hm, List.forall_mem_cons] at hframes
    obtain ⟨helems, hframes⟩ := hframes
    have hargs : ∀ x ∈ elems.tail, c.term x :=
      fun x hx => hc.element helems x (List.mem_of_mem_tail hx)
    split
    · split
      · exact ⟨helems, hframes, h.calls, h.events⟩
      · exact h.call hc hprogram _ hargs true hframes
    · rename_i head hident
      refine h.fault (hc.head hvalue ?_) hframes
      cases value <;> first | rfl | exact absurd rfl (hident _)
  · rename_i name args attempt others goOn frames hm
    rw [hm, List.forall_mem_cons] at hframes
    obtain ⟨⟨hargs, hattempt, hothers⟩, hframes⟩ := hframes
    exact h.proceed hc name hargs goOn hframes (resume_kept hc hattempt hargs hothers hvalue)

theorem abandonFrame (h : c.Holds m) {f : Failure} (hf : c.failure f) :
    c.Holds (m.abandonFrame f) := by
  have hframes := h.frames
  unfold Machine.abandonFrame
  split
  · exact h
  · rename_i elems frames hm
    rw [hm, List.forall_mem_cons] at hframes
    exact ⟨h.control, hframes.2, h.calls, h.events⟩
  · rename_i name args attempt others goOn frames hm
    rw [hm, List.forall_mem_cons] at hframes
    refine h.leave name ?_ ?_ hframes.2
    · exact hf
    · exact hf

theorem step {program : Program} {config : Config} (hc : c.Kept) (hprogram : c.OfProgram program)
    (h : c.Holds m) : c.Holds (m.step program config) := by
  have hcontrol := h.control
  unfold Machine.step
  split
  · rename_i t hm
    rw [hm] at hcontrol
    exact h.reduceTerm hc hcontrol
  · rename_i value hm
    rw [hm] at hcontrol
    exact h.giveValue hc hprogram hcontrol
  · rename_i f hm
    rw [hm] at hcontrol
    exact h.abandonFrame hcontrol

theorem reaches {program : Program} {config : Config} (hc : c.Kept) (hprogram : c.OfProgram program)
    {m' : Machine} (hreaches : Machine.Reaches program config m m') (h : c.Holds m) : c.Holds m' :=
  hreaches.invariant (fun _ hm => hm.step hc hprogram) h

end Holds

/-! ## Evaluations -/

variable (c)

/-- What an evaluation came to may occur. -/
def OfOutcome : Outcome → Prop
  | .value t => c.term t
  | .failure f => c.failure f
  | .unfinished => True

/-- What an evaluation came to, and all that it tells of, may occur. -/
structure OfEvaluation (evaluation : Evaluation) : Prop where
  outcome : c.OfOutcome evaluation.outcome
  events : ∀ e ∈ evaluation.events, c.OfEvent e
  calls : ∀ x ∈ evaluation.evaluator.calls.calls, c.call x

variable {c}

theorem Holds.finish {e : Evaluator} (hc : c.Kept) (hprogram : c.OfProgram e.program) {m : Machine}
    (h : c.Holds m) : c.OfEvaluation (e.finish m) := by
  obtain ⟨hreaches, hresult, -⟩ := Machine.run_reaches e.program e.config e.config.horizon m
  have hlast := h.reaches hc hprogram hreaches
  rcases hrun : m.run e.program e.config e.config.horizon with ⟨result, m'⟩
  rw [hrun] at hresult hlast
  unfold Evaluator.finish
  rw [hrun]
  refine ⟨?_, ?_, hlast.calls⟩
  · have hcontrol := hlast.control
    rcases result with _ | f | t
    · exact trivial
    · rw [(Machine.result?_eq_error_iff.1 (hresult _ rfl)).1] at hcontrol
      exact hcontrol
    · rw [(Machine.result?_eq_ok_iff.1 (hresult _ rfl)).1] at hcontrol
      exact hcontrol
  · intro x hx
    exact hlast.events x (List.mem_reverse.1 hx)

theorem ofEvaluation_reduce {e : Evaluator} (hc : c.Kept) (hprogram : c.OfProgram e.program)
    (hcalls : ∀ x ∈ e.calls.calls, c.call x) {t : Term} (ht : c.term t) :
    c.OfEvaluation (e.reduce t) := by
  have hstart : c.Holds (e.machine (.reduce t)) := by
    refine ⟨ht, ?_, hcalls, ?_⟩
    · intro f hf
      cases hf
    · intro x hx
      cases hx
  exact hstart.finish hc hprogram

end Contents

end Clausal
