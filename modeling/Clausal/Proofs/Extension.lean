/-
  Clausal.Proofs.Extension

  Later declarations never change a result. A program that is loaded with further declarations
  behind its own has the clauses it had, with others behind them, and the constructors and the
  signatures it had (`Program.Extends`). Its machines go through the same steps, only that each
  call has more clauses left to try (`Machine.extend_step`). The two part only where the first
  program fails for want of a clause; and a failure is never caught, so a run that comes to a
  value has met none (`Machine.run_extend`).
-/
import Clausal.Proofs.Grouping

namespace Clausal

/-! ## Programs -/

namespace Program

/-- The second program has all that the first one has. Each function may have `more` clauses behind
    those it had, and what was a value is one still. -/
structure Extends (more : String → List Clause) (p p' : Program) : Prop where
  clauses : ∀ {name : String} {clauses : List Clause},
    p.clauses.get? name = some clauses → p'.clauses.get? name = some (clauses ++ more name)
  values : ∀ {name : String}, p.isValueHead name = true → p'.isValueHead name = true
  bindings : ∀ {name : String} {type : Term},
    p.bindings.get? name = some type → p'.bindings.get? name = some type

variable {p q q' : Program} {linear : Bool} {more : String → List Clause}

theorem Extends.refl (p : Program) : p.Extends (fun _ => []) p where
  clauses h := by rw [h, List.append_nil]
  values h := h
  bindings h := h

theorem isValueHead_iff {name : String} :
    p.isValueHead name = true ↔
      (∃ type, p.typeOfConstructor? name = some type) ∧ p.clauses.get? name = none := by
  rw [isValueHead, Environment.contains, Bool.and_eq_true, Option.isSome_iff_exists,
    Bool.not_eq_true', Option.isSome_eq_false_iff, Option.isNone_iff_eq_none]

/-- A function that has clauses is called, whatever types are declared. -/
theorem isValueHead_of_clauses {name : String} {clauses : List Clause}
    (h : p.clauses.get? name = some clauses) : p.isValueHead name = false := by
  rw [isValueHead, Environment.contains, h]
  exact Bool.and_false _

theorem Extends.addType (h : p.Extends more q) {elems : List Term}
    (hadd : q.addType elems = .ok q') : p.Extends more q' := by
  cases elems with
  | nil => cases hadd
  | cons head rest =>
    rw [Program.addType] at hadd
    split at hadd
    · cases hadd
    · cases hadd
      refine ⟨h.clauses, fun hvalue => ?_, h.bindings⟩
      -- The new constructors stand in front of the others, and may have taken over a name.
      obtain ⟨⟨type, htype⟩, hclauses⟩ := isValueHead_iff.1 (h.values hvalue)
      refine isValueHead_iff.2 ⟨?_, hclauses⟩
      rw [typeOfConstructor?] at htype ⊢
      rw [List.lookup_append, htype]
      exact Option.isSome_iff_exists.1 (by rw [Option.isSome_or, Option.isSome_some, Bool.or_true])

theorem Extends.addBinding (h : p.Extends more q) {left right : Term}
    (hadd : q.addBinding left right = .ok q') : p.Extends more q' := by
  rw [Program.addBinding.eq_def] at hadd
  split at hadd
  · rename_i name
    rw [Environment.define] at hadd
    cases hcontains : q.bindings.contains name with
    | true =>
      rw [hcontains] at hadd
      cases hadd
    | false =>
      rw [hcontains] at hadd
      cases hadd
      refine ⟨h.clauses, h.values, fun {other type} hother => ?_⟩
      -- A name that had a signature is not the new one.
      have hfound := h.bindings hother
      have hne : other ≠ name := by
        rintro rfl
        rw [Environment.contains, hfound] at hcontains
        cases hcontains
      show (q.bindings.put name right).get? other = some type
      rw [Environment.get?_put, if_neg hne]
      exact hfound
  · cases hadd

/-- A clause may be added for any name that is not taken for a value. -/
theorem Extends.addClause (h : p.Extends more q) {c : Clause}
    (hname : p.isValueHead c.name = false) :
    p.Extends (fun name => if name = c.name then more name ++ [c] else more name)
      (q.addClause c) where
  clauses {name clauses} hclauses := by
    have hfound := h.clauses hclauses
    show (q.clauses.put c.name _).get? name = _
    rw [Environment.get?_put]
    by_cases hsame : name = c.name
    · rw [if_pos hsame, if_pos hsame, ← hsame, hfound, Option.getD_some, List.append_assoc]
    · rw [if_neg hsame, if_neg hsame]
      exact hfound
  values {name} hvalue := by
    have hne : name ≠ c.name := by
      rintro rfl
      rw [hname] at hvalue
      cases hvalue
    obtain ⟨htype, hclauses⟩ := isValueHead_iff.1 (h.values hvalue)
    refine isValueHead_iff.2 ⟨htype, ?_⟩
    show (q.clauses.put c.name _).get? name = none
    rw [Environment.get?_put, if_neg hne]
    exact hclauses
  bindings := h.bindings

/-- A declaration adds to a program, unless it is a clause for what was a value. -/
theorem Extends.add (h : p.Extends more q) {d : Term}
    (hd : ∀ head args body, d = .define (.app (head :: args)) body →
      p.isValueHead head.render = false)
    (hadd : q.add linear d = .ok q') : ∃ more', p.Extends more' q' := by
  rw [Program.add.eq_def] at hadd
  split at hadd
  · exact ⟨more, h.addType hadd⟩
  · rename_i left right
    cases hcompile : Clause.compile linear left right with
    | error err =>
      rw [hcompile] at hadd
      cases hadd
    | ok c =>
      rw [hcompile] at hadd
      cases hadd
      obtain ⟨head, args, rfl, rfl⟩ := Clause.compile_ok hcompile
      exact ⟨_, h.addClause (hd head args right rfl)⟩
  · exact ⟨more, h.addBinding hadd⟩
  · exact ⟨more, h.addBinding hadd⟩
  · cases hadd

/-- Declarations behind those of a program extend it, unless one of them is a clause for what was a
    value. -/
theorem Extends.of_load {ds es : List Term} {p p' : Program} (hp : load linear ds = .ok p)
    (hp' : load linear (ds ++ es) = .ok p')
    (hes : ∀ head args body, Term.define (.app (head :: args)) body ∈ es →
      p.isValueHead head.render = false) :
    ∃ more, p.Extends more p' := by
  have hrest : es.foldlM (Program.add linear) p = .ok p' := by
    rw [load, List.foldlM_append] at hp'
    rw [load] at hp
    rw [hp] at hp'
    exact hp'
  -- What has to stay is what the first program has, not what the later declarations add to it.
  have hadd : ∀ d ∈ es, ∀ q q' : Program, (∃ more, p.Extends more q) → q.add linear d = .ok q' →
      ∃ more, p.Extends more q' := by
    rintro d hd q q' ⟨more, hq⟩ hq'
    exact hq.add (fun head args body heq => hes head args body (heq ▸ hd)) hq'
  exact (foldlM_add hadd ⟨_, Extends.refl p⟩).1 p' hrest

/-- An entry that fits goes on to fit. -/
theorem Extends.entryFault? (h : p.Extends more q) {config : Config}
    (hentry : p.entryFault? config = none) : q.entryFault? config = none := by
  cases hbinding : p.bindings.get? config.entryName with
  | none =>
    simp only [Program.entryFault?, hbinding] at hentry
    cases hentry
  | some type =>
    simp only [Program.entryFault?, hbinding] at hentry
    simp only [Program.entryFault?, h.bindings hbinding]
    exact hentry

end Program

/-! ## Matching -/

/-- The progress of a call that has further clauses to try. -/
def Progress.extend (later : List Clause) : Progress → Progress
  | .need arg attempt others => .need arg attempt (others ++ later)
  | .matched body => .matched body
  | .stuck => .stuck

/-- As long as a clause is found, those behind the last one do not matter. -/
theorem Progress.start_append {args : List Term} {clauses : List Clause}
    (h : start args clauses ≠ .stuck) (later : List Clause) :
    start args (clauses ++ later) = (start args clauses).extend later := by
  induction clauses with
  | nil => exact absurd rfl h
  | cons c others ih =>
    rw [List.cons_append]
    by_cases hlt : args.length < c.params.length
    · -- The clause is not taken up, which leaves it to the others.
      rw [start_cons_of_lt hlt] at h
      rw [start_cons_of_lt hlt, start_cons_of_lt hlt]
      exact ih h
    · rcases hparams : c.params with _ | ⟨pattern, patterns⟩
      · simp only [start, hparams, extend]
      · rw [hparams, List.length_cons] at hlt
        obtain ⟨arg, rest, rfl⟩ : ∃ arg rest, args = arg :: rest :=
          List.exists_cons_of_length_pos (by omega)
        have hlen : patterns.length ≤ rest.length := by
          rw [List.length_cons] at hlt
          omega
        rw [start_cons_of_length_le hparams hlen, start_cons_of_length_le hparams hlen]
        rfl

theorem Attempt.resume_append {a : Attempt} {args : List Term} {others : List Clause}
    {value : Term} (h : a.resume args others value ≠ .stuck) (later : List Clause) :
    a.resume args (others ++ later) value = (a.resume args others value).extend later := by
  unfold resume at h ⊢
  cases haccept : a.accept? value with
  | none =>
    rw [haccept] at h
    exact Progress.start_append h later
  | some bound =>
    show a.advance bound (others ++ later) = (a.advance bound others).extend later
    unfold advance
    split <;> rfl

/-! ## Machines -/

/-- The frame with more clauses for its function. -/
def Frame.extend (more : String → List Clause) : Frame → Frame
  | .head elems => .head elems
  | .call name args attempt others goOn => .call name args attempt (others ++ more name) goOn

namespace Machine

variable {p p' : Program} {config : Config} {more : String → List Clause}

/-- The machine as it would be with more clauses for every function. -/
def extend (more : String → List Clause) (m : Machine) : Machine :=
  { m with frames := m.frames.map (Frame.extend more) }

/-- What has come to a result has no clauses left to try. -/
theorem extend_of_frames {m : Machine} (h : m.frames = []) : m.extend more = m := by
  obtain ⟨control, frames, calls, steps, signal, events⟩ := m
  cases h
  rfl

theorem result?_extend (m : Machine) : (m.extend more).result? = m.result? := by
  obtain ⟨control, frames, calls, steps, signal, events⟩ := m
  cases control <;> cases frames <;> rfl

theorem extend_reduceTerm (m : Machine) (t : Term) :
    (m.extend more).reduceTerm t = (m.reduceTerm t).extend more := by
  unfold reduceTerm
  split <;> rfl

/-- A call that is on its way has more clauses to try, which is all that is different. -/
theorem extend_proceed (more : String → List Clause) {m : Machine} {name : String}
    {args : List Term} {goOn : Bool} {frames : List Frame} {progress : Progress}
    (hbusy : (m.proceed name args goOn frames progress).Busy) :
    (m.extend more).proceed name args goOn (frames.map (Frame.extend more))
        (progress.extend (more name))
      = (m.proceed name args goOn frames progress).extend more := by
  cases progress with
  | need arg attempt others => rfl
  | matched body => rfl
  | stuck => exact absurd rfl (hbusy _)

/-- A call without a clause left fails. -/
theorem ne_stuck_of_busy {m : Machine} {name : String} {args : List Term} {goOn : Bool}
    {frames : List Frame} {progress : Progress}
    (hbusy : (m.proceed name args goOn frames progress).Busy) : progress ≠ .stuck := by
  rintro rfl
  exact hbusy _ rfl

/-- A call that does not fail at once is not refused, and its function is known. -/
theorem clauses_of_busy {m : Machine} {name : String} {args : List Term} {goOn : Bool}
    {frames : List Frame} (hbusy : (m.call p config name args goOn frames).Busy) :
    m.refusal? config = none ∧ ∃ clauses, p.clauses.get? name = some clauses := by
  cases hrefusal : m.refusal? config with
  | some cause =>
    simp only [call, hrefusal] at hbusy
    exact absurd rfl (hbusy _)
  | none =>
    cases hclauses : p.clauses.get? name with
    | some clauses => exact ⟨rfl, clauses, rfl⟩
    | none =>
      simp only [call, hrefusal, hclauses] at hbusy
      exact absurd rfl (hbusy _)

theorem extend_call (hext : p.Extends more p') {m : Machine} {name : String} {args : List Term}
    {goOn : Bool} {frames : List Frame} (hbusy : (m.call p config name args goOn frames).Busy) :
    (m.extend more).call p' config name args goOn (frames.map (Frame.extend more))
      = (m.call p config name args goOn frames).extend more := by
  obtain ⟨hrefusal, clauses, hclauses⟩ := clauses_of_busy hbusy
  -- Whether a call may be entered does not depend on the clauses that are left.
  have hrefusal' : (m.extend more).refusal? config = none := hrefusal
  rw [call_of_clauses hrefusal hclauses] at hbusy ⊢
  rw [call_of_clauses hrefusal' (hext.clauses hclauses),
    Progress.start_append (ne_stuck_of_busy hbusy)]
  exact extend_proceed more hbusy

theorem extend_giveValue (hext : p.Extends more p') {m : Machine} {value : Term}
    (hbusy : (m.giveValue p config value).Busy) :
    (m.extend more).giveValue p' config value = (m.giveValue p config value).extend more := by
  obtain ⟨control, frames, calls, steps, signal, events⟩ := m
  rcases frames with _ | ⟨frame, frames⟩
  · rfl
  · cases frame with
    | head elems =>
      cases value with
      | ident name =>
        cases hvalue : p.isValueHead name with
        | true =>
          have hvalue' := hext.values hvalue
          simp only [giveValue, extend, List.map_cons, Frame.extend, if_pos hvalue, if_pos hvalue']
        | false =>
          have hnot : ¬ p.isValueHead name = true := by
            rw [hvalue]
            exact Bool.false_ne_true
          simp only [giveValue, if_neg hnot] at hbusy ⊢
          -- The function has clauses, so it is called in the extended program as well.
          obtain ⟨-, clauses, hclauses⟩ := clauses_of_busy hbusy
          have hnot' : ¬ p'.isValueHead name = true := by
            rw [Program.isValueHead_of_clauses (hext.clauses hclauses)]
            exact Bool.false_ne_true
          have hcall := extend_call hext hbusy
          simp only [extend, List.map_cons, Frame.extend, if_neg hnot'] at hcall ⊢
          exact hcall
      | _ => exact absurd rfl (hbusy _)
    | call name args attempt others goOn =>
      have hne : attempt.resume args others value ≠ .stuck := ne_stuck_of_busy hbusy
      have hstep := extend_proceed more hbusy
      rw [← Attempt.resume_append hne] at hstep
      exact hstep

/-- A machine that gives up goes on to give up. -/
theorem busy_of_step {m : Machine} (h : (m.step p config).Busy) : m.Busy := by
  intro f hf
  rw [step_abandon hf] at h
  unfold abandonFrame at h
  split at h
  · exact h f hf
  · exact h f hf
  · exact h f rfl

/-- As long as nothing fails, the step is the same with more clauses behind those there are. -/
theorem extend_step (hext : p.Extends more p') {m : Machine} (h : (m.step p config).Busy) :
    (m.extend more).step p' config = (m.step p config).extend more := by
  cases hm : m.control with
  | reduce t =>
    have hm' : (m.extend more).control = .reduce t := hm
    rw [step_reduce hm, step_reduce hm']
    exact extend_reduceTerm m t
  | give value =>
    have hm' : (m.extend more).control = .give value := hm
    rw [step_give hm] at h ⊢
    rw [step_give hm']
    exact extend_giveValue hext h
  | abandon f => exact absurd hm (busy_of_step h f)

/-- Nothing has failed where a run begins that comes to a value. -/
theorem busy_of_run {limit : Nat} {m m' : Machine} {v : Term}
    (h : m.run p config limit = (some (.ok v), m')) : m.Busy := by
  obtain ⟨hreach, hresult, -⟩ := run_reaches p config limit m
  rw [h] at hreach hresult
  have hend : m'.Busy := by
    obtain ⟨hcontrol, -⟩ := result?_eq_ok_iff.1 (hresult _ rfl)
    intro f hf
    rw [hcontrol] at hf
    cases hf
  exact hreach.invariant_back (P := Busy) (fun _ => busy_of_step) hend

/-- A run that comes to a value comes to it with more clauses as well, and all else it leaves
    behind is the same. -/
theorem run_extend (hext : p.Extends more p') {limit : Nat} {m m' : Machine} {v : Term}
    (h : m.run p config limit = (some (.ok v), m')) :
    (m.extend more).run p' config limit = (some (.ok v), m') := by
  induction m using run.induct p config limit with
  | case1 m r hr =>
    rw [run_of_result limit hr] at h
    cases h
    obtain ⟨-, hframes⟩ := result?_eq_ok_iff.1 hr
    rw [extend_of_frames hframes, run_of_result limit hr]
  | case2 m hr next hle ih =>
    rw [run_of_step hr hle] at h
    -- Had the step failed, so would the run have.
    have hstep : (m.extend more).step p' config = next.extend more :=
      extend_step hext (busy_of_run h)
    rw [run_of_step ((result?_extend m).trans hr) (by rw [hstep]; exact hle), hstep]
    exact ih h
  | case3 m hr next hgt =>
    rw [run_of_exceeded hr hgt] at h
    cases h

end Machine

/-! ## Evaluators -/

/-- The same evaluator for another program. -/
def Evaluator.under (e : Evaluator) (p : Program) : Evaluator := { e with program := p }

/-- The same account, of an evaluator for another program. -/
def Evaluation.under (evaluation : Evaluation) (p : Program) : Evaluation :=
  { evaluation with evaluator := evaluation.evaluator.under p }

def Interpretation.under (run : Interpretation) (p : Program) : Interpretation :=
  { run with evaluator := run.evaluator.under p }

namespace Evaluator

variable {e : Evaluator} {p' : Program} {more : String → List Clause}

theorem finish_extend (hext : e.program.Extends more p') {m : Machine} {v : Term}
    (h : (e.finish m).outcome = .value v) :
    m.Busy ∧ (e.under p').finish (m.extend more) = (e.finish m).under p' := by
  rcases hrun : m.run e.program e.config e.config.horizon with ⟨result, m'⟩
  have hfinish := finish_eq hrun
  rw [hfinish] at h ⊢
  rcases result with _ | f | w
  · cases h
  · cases h
  · have hrun' := Machine.run_extend hext hrun
    exact ⟨Machine.busy_of_run hrun, finish_eq (e := e.under p') hrun'⟩

theorem reduce_extend (hext : e.program.Extends more p') {t v : Term}
    (h : (e.reduce t).outcome = .value v) : (e.under p').reduce t = (e.reduce t).under p' :=
  (finish_extend hext h).2

theorem call_extend (hext : e.program.Extends more p') {name : String} {args : List Term} {v : Term}
    (h : (e.call name args).outcome = .value v) :
    (e.under p').call name args = (e.call name args).under p' := by
  obtain ⟨hbusy, hfinish⟩ := finish_extend hext h
  rw [← Machine.extend_call hext hbusy] at hfinish
  exact hfinish

/-- Every round comes to the same term, so there are as many of them. -/
theorem interpretFrom_extend {rounds : Nat} (hext : e.program.Extends more p') {t v : Term}
    (h : (interpretFrom rounds e t).verdict = .value v) :
    interpretFrom rounds (e.under p') t = (interpretFrom rounds e t).under p' := by
  induction rounds generalizing e t with
  | zero => cases h
  | succ rounds ih =>
    unfold interpretFrom at h ⊢
    cases hw : (e.reduce t).outcome with
    | failure f =>
      simp only [hw] at h
      cases h
    | unfinished =>
      simp only [hw] at h
      cases h
    | value w =>
      have hreduce := reduce_extend hext hw
      have houtcome : ((e.under p').reduce t).outcome = .value w := by
        rw [hreduce]
        exact hw
      simp only [hw] at h
      simp only [hw, houtcome]
      split
      · rw [hreduce]
        rfl
      · rename_i hgo
        rw [if_neg hgo] at h
        -- The next round begins with the same evaluator, but for its program.
        have hnext := ih (e := (e.reduce t).evaluator) hext h
        rw [hreduce]
        simp only [Evaluation.under, hnext]
        rfl

theorem interpret_extend (hext : e.program.Extends more p') {v : Term}
    (h : e.interpret.verdict = .value v) :
    (e.under p').interpret = e.interpret.under p' := by
  cases hentry : e.program.entryFault? e.config with
  | some fault =>
    simp only [interpret, hentry] at h
    cases h
  | none =>
    have hentry' : (e.under p').program.entryFault? (e.under p').config = none :=
      hext.entryFault? hentry
    simp only [interpret, hentry] at h
    simp only [interpret, hentry, hentry']
    exact interpretFrom_extend hext h

end Evaluator

/-- **Later declarations never change a result.** Let one program be loaded with further
    declarations behind those of another, none of them a clause for what the other takes for a
    value. Whatever reduction, call or run of the other comes to a value, it comes to the same
    value here, with as many calls and the same events, however the budgets and the interrupt are
    set. -/
theorem later_declarations_keep_results {linear : Bool} {ds es : List Term} {p p' : Program}
    (hp : Program.load linear ds = .ok p) (hp' : Program.load linear (ds ++ es) = .ok p')
    (hes : ∀ head args body, Term.define (.app (head :: args)) body ∈ es →
      p.isValueHead head.render = false)
    (config : Config) (signal : Signal) :
    (∀ t v, ((Evaluator.new p config signal).reduce t).outcome = .value v →
      ((Evaluator.new p' config signal).reduce t).outcome = .value v ∧
        ((Evaluator.new p' config signal).reduce t).evaluator.steps
          = ((Evaluator.new p config signal).reduce t).evaluator.steps ∧
        ((Evaluator.new p' config signal).reduce t).events
          = ((Evaluator.new p config signal).reduce t).events) ∧
    (∀ name args v, ((Evaluator.new p config signal).call name args).outcome = .value v →
      ((Evaluator.new p' config signal).call name args).outcome = .value v ∧
        ((Evaluator.new p' config signal).call name args).evaluator.steps
          = ((Evaluator.new p config signal).call name args).evaluator.steps ∧
        ((Evaluator.new p' config signal).call name args).events
          = ((Evaluator.new p config signal).call name args).events) ∧
    ∀ v, (Evaluator.new p config signal).interpret.verdict = .value v →
      (Evaluator.new p' config signal).interpret.verdict = .value v ∧
        (Evaluator.new p' config signal).interpret.steps
          = (Evaluator.new p config signal).interpret.steps ∧
        (Evaluator.new p' config signal).interpret.evaluator.steps
          = (Evaluator.new p config signal).interpret.evaluator.steps ∧
        (Evaluator.new p' config signal).interpret.events
          = (Evaluator.new p config signal).interpret.events := by
  obtain ⟨more, hext⟩ := Program.Extends.of_load hp hp' hes
  refine ⟨fun t v h => ?_, fun name args v h => ?_, fun v h => ?_⟩
  · have hsame : (Evaluator.new p' config signal).reduce t = _ := Evaluator.reduce_extend hext h
    rw [hsame]
    exact ⟨h, rfl, rfl⟩
  · have hsame : (Evaluator.new p' config signal).call name args = _ :=
      Evaluator.call_extend hext h
    rw [hsame]
    exact ⟨h, rfl, rfl⟩
  · have hsame : (Evaluator.new p' config signal).interpret = _ :=
      Evaluator.interpret_extend hext h
    rw [hsame]
    exact ⟨h, rfl, rfl, rfl⟩

/-- A type with a constructor of the name that the function below is called with, and a second
    clause for that function. -/
def laterDeclarations : List Term :=
  [.entity [.ident "t", .app [.ident "a", .ident "t"]],
    .define (.app [.ident "keep", .ident "Y"]) (.app [.ident "spin", .ident "Y"])]

theorem later_declarations_keep_results_keep :
    ∃ p', Program.load false (Evaluator.keepDeclarations ++ laterDeclarations) = .ok p' ∧
      p'.isValueHead "a" = true ∧
      ((Evaluator.new p' .bare .quiet).reduce (.app [.ident "keep", .ident "a"])).outcome
        = .value (.ident "a") ∧
      ((Evaluator.new p' .bare .quiet).reduce (.app [.ident "keep", .ident "a"])).events
        = ((Evaluator.new Evaluator.keepProgram .bare .quiet).reduce
            (.app [.ident "keep", .ident "a"])).events := by
  have hes : ∀ head args body, Term.define (.app (head :: args)) body ∈ laterDeclarations →
      Evaluator.keepProgram.isValueHead head.render = false := by
    intro head args body h
    simp only [laterDeclarations, List.mem_cons, List.not_mem_nil, or_false] at h
    rcases h with h | h
    · cases h
    · cases h
      decide
  have hreduce : ((Evaluator.new Evaluator.keepProgram .bare .quiet).reduce
      (.app [.ident "keep", .ident "a"])).outcome = .value (.ident "a") := by
    rw [Evaluator.reduce, Evaluator.finish_of_iterate 6 rfl (by decide)]
    rfl
  have hbefore : Program.load false Evaluator.keepDeclarations = .ok Evaluator.keepProgram := rfl
  have hafter : Program.load false (Evaluator.keepDeclarations ++ laterDeclarations) = .ok _ := rfl
  obtain ⟨hvalue, -, hevents⟩ :=
    (later_declarations_keep_results hbefore hafter hes .bare .quiet).1 _ _ hreduce
  exact ⟨_, rfl, by decide, hvalue, hevents⟩

end Clausal
