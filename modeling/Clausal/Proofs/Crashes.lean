/-
  Clausal.Proofs.Crashes

  What crashes, and what does not. A run that does not crash is the run of the machine that goes on
  regardless (`Machine.run_of_run?`), so all that is known of evaluations is true of those that come
  to something (`Evaluator.reduce_of_reduce?` and its like). And where no term is missing nothing
  crashes: the arguments and the heads have a text, a body takes the values of its variables
  (`Machine.crashes_of_whole`), and no term goes missing on the way.
-/
import Clausal.Evaluator.Crash
import Clausal.Program.Crash
import Clausal.Proofs.Wholeness

namespace Clausal

/-! ## Texts and substitutions -/

namespace Term

theorem Whole.text? {t : Term} (ht : t.Whole) : t.text? = some t.render := by
  rw [Term.text?, if_neg ht.ne_hole, if_pos ht.hasText]

theorem not_any_textless {args : List Term} (h : ∀ x ∈ args, x.Whole) :
    args.any (·.text?.isNone) = false := by
  rw [List.any_eq_false]
  intro x hx
  simp [(h x hx).text?]

mutual

/-- A substitution that goes through gives what `subst` gives. -/
theorem subst?_cases (key repl : Term) :
    (t : Term) → subst? key repl t = none ∨ subst? key repl t = some (subst key repl t)
  | .hole => .inr rfl
  | .ident _ => .inr rfl
  | .group t => by
    rw [subst?, subst]
    split
    · exact .inr rfl
    · rcases subst?_cases key repl t with h | h <;> simp [h]
  | .seq k xs => by
    rw [subst?, subst]
    split
    · exact .inr rfl
    · rcases substAll?_cases key repl xs with h | h <;> simp [h]
  | .rel k a b => by
    rw [subst?, subst]
    split
    · exact .inr rfl
    · split
      · exact .inl rfl
      · rcases subst?_cases key repl a with ha | ha <;>
          rcases subst?_cases key repl b with hb | hb <;> simp [ha, hb]
  | .builtin _ _ => .inr rfl
  | .marker => .inr rfl
  | .builtinMarker => .inr rfl

theorem substAll?_cases (key repl : Term) :
    (ts : List Term) → substAll? key repl ts = none ∨
      substAll? key repl ts = some (substAll key repl ts)
  | [] => .inr rfl
  | t :: ts => by
    rw [substAll?, substAll]
    rcases subst?_cases key repl t with h | h <;>
      rcases substAll?_cases key repl ts with hs | hs <;> simp [h, hs]

end

theorem substAll?_eq_some {key repl : Term} {ts : List Term}
    (h : ∀ t ∈ ts, subst? key repl t = some (subst key repl t)) :
    substAll? key repl ts = some (substAll key repl ts) := by
  induction ts with
  | nil => rfl
  | cons t ts ih =>
    rw [List.forall_mem_cons] at h
    rw [substAll?, substAll, h.1, ih h.2]

/-- Every substitution goes through in a whole term. -/
theorem Whole.subst? {t : Term} (ht : t.Whole) (key repl : Term) :
    Term.subst? key repl t = some (Term.subst key repl t) := by
  induction ht with
  | group _ ih =>
    rw [Term.subst?, Term.subst, ih]
    split <;> rfl
  | seq _ ih =>
    rw [Term.subst?, Term.subst, substAll?_eq_some ih]
    split <;> rfl
  | rel ha hb iha ihb =>
    rw [Term.subst?, Term.subst, if_neg (not_or.2 ⟨ha.ne_hole, hb.ne_hole⟩), iha, ihb]
    split <;> rfl
  | _ => rfl

end Term

namespace Bindings

/-- What is put into a body, if all of it can be, is what `apply` puts there. -/
theorem apply_of_fill? {bound : Bindings} {body t : Term} (h : fill? bound body = some t) :
    apply bound body = t := by
  rw [fill?] at h
  rw [apply]
  induction bound generalizing body with
  | nil => exact Option.some.inj h
  | cons entry rest ih =>
    rw [List.foldlM_cons] at h
    obtain ⟨next, hnext, hrest⟩ := Option.bind_eq_some_iff.1 h
    rcases Term.subst?_cases (.ident entry.1) entry.2 body with hnone | hsome
    · rw [hnone] at hnext
      cases hnext
    · rw [hsome] at hnext
      cases hnext
      exact ih hrest

/-- Whole values can be put into a whole body. -/
theorem fill?_of_whole {bound : Bindings} (hbound : ∀ b ∈ bound, b.2.Whole) {body : Term}
    (hbody : body.Whole) : fill? bound body = some (apply bound body) := by
  rw [fill?, apply]
  induction bound generalizing body with
  | nil => rfl
  | cons entry rest ih =>
    rw [List.forall_mem_cons] at hbound
    rw [List.foldlM_cons, hbody.subst?]
    exact ih hbound.2 (hbody.subst hbound.1 entry.1)

end Bindings

/-! ## Steps -/

open Machine in
theorem Attempt.crashes_of_whole {a : Attempt} (ha : wholeContents.OfAttempt a) {value : Term}
    (hvalue : value.Whole) : a.crashes value = false := by
  rw [crashes]
  split
  · rfl
  · rename_i bound hbound
    split
    · rfl
    · have hall := Contents.accept?_kept ha hvalue hbound
      rw [Bindings.fill?_of_whole hall ha.body]
      rfl

namespace Machine

variable {program : Program} {config : Config} {limit : Nat} {m m' : Machine}

theorem callCrashes_of_whole {args : List Term} (hargs : ∀ x ∈ args, x.Whole) :
    m.callCrashes config args = false := by
  rw [callCrashes, Term.not_any_textless hargs, Bool.and_false]

/-- Where no term is missing, no step crashes. -/
theorem crashes_of_whole (h : wholeContents.Holds m) : m.crashes program config = false := by
  have hcontrol := h.control
  have hframes := h.frames
  unfold crashes
  split
  · rename_i value elems frames hm hf
    rw [hm] at hcontrol
    rw [hf, List.forall_mem_cons] at hframes
    have helems : ∀ x ∈ elems, x.Whole := Term.whole_seq.1 hframes.1
    split
    · rw [callCrashes_of_whole fun x hx => helems x (List.mem_of_mem_tail hx), Bool.and_false]
    · rw [Term.Whole.text? hcontrol]
      rfl
  · rename_i value name args attempt others goOn frames hm hf
    rw [hm] at hcontrol
    rw [hf, List.forall_mem_cons] at hframes
    exact Attempt.crashes_of_whole hframes.1.2.1 hcontrol
  · rfl

/-! ## Runs -/

theorem run?_of_result {r : Except Failure Term} (limit : Nat) (h : m.result? = some r) :
    m.run? program config limit = some (some r, m) := by
  unfold run?
  split
  · rename_i hr
    rw [h] at hr
    cases hr
    rfl
  · rename_i hr
    rw [h] at hr
    cases hr

theorem run?_of_pending (limit : Nat) (h : m.result? = none) :
    m.run? program config limit =
      if m.crashes program config then none
      else if (m.step program config).steps ≤ limit then
        (m.step program config).run? program config limit
      else some (none, m) := by
  conv_lhs => unfold run?
  split
  · rename_i hr
    rw [h] at hr
    cases hr
  · rfl

/-- A run that does not crash is the run that takes no heed of crashes. -/
theorem run_of_run? {stopped : Option (Except Failure Term) × Machine}
    (h : m.run? program config limit = some stopped) : m.run program config limit = stopped := by
  induction m using run.induct program config limit with
  | case1 m r hr =>
    rw [run?_of_result limit hr] at h
    rw [run_of_result limit hr]
    exact Option.some.inj h
  | case2 m hr next hle ih =>
    rw [run?_of_pending limit hr, if_pos (show (m.step program config).steps ≤ limit from hle)] at h
    rw [run_of_step hr hle]
    split at h
    · cases h
    · exact ih h
  | case3 m hr next hgt =>
    rw [run?_of_pending limit hr, if_neg (show ¬(m.step program config).steps ≤ limit from hgt)] at h
    rw [run_of_exceeded hr hgt]
    split at h
    · cases h
    · exact Option.some.inj h

/-- A run on which no step crashes does not crash. -/
theorem run?_eq (hsafe : ∀ m', Reaches program config m m' → m'.crashes program config = false) :
    m.run? program config limit = some (m.run program config limit) := by
  induction m using run.induct program config limit with
  | case1 m r hr => rw [run?_of_result limit hr, run_of_result limit hr]
  | case2 m hr next hle ih =>
    rw [run?_of_pending limit hr, run_of_step hr hle, if_neg (by simp [hsafe m (.refl m)]),
      if_pos hle]
    exact ih fun m' hm' => hsafe m' hm'.of_step
  | case3 m hr next hgt =>
    rw [run?_of_pending limit hr, run_of_exceeded hr hgt, if_neg (by simp [hsafe m (.refl m)]),
      if_neg hgt]

end Machine

/-! ## Evaluations -/

namespace Evaluator

open Machine

variable {e : Evaluator} {m : Machine}

theorem finish_eq_account (e : Evaluator) (m : Machine) :
    e.finish m = e.account (m.run e.program e.config e.config.horizon) := rfl

theorem finish_of_finish? {r : Evaluation} (h : e.finish? m = some r) : e.finish m = r := by
  obtain ⟨stopped, hrun, rfl⟩ := Option.map_eq_some_iff.1 h
  rw [finish_eq_account, run_of_run? hrun]

theorem reduce_of_reduce? {t : Term} {r : Evaluation} (h : e.reduce? t = some r) :
    e.reduce t = r :=
  finish_of_finish? h

theorem call_of_call? {name : String} {args : List Term} {r : Evaluation}
    (h : e.call? name args = some r) : e.call name args = r := by
  rw [call?] at h
  split at h
  · cases h
  · exact finish_of_finish? h

theorem interpretFrom_of_interpretFrom? {rounds : Nat} {t : Term} {r : Interpretation}
    (h : interpretFrom? rounds e t = some r) : interpretFrom rounds e t = r := by
  induction rounds generalizing e t r with
  | zero => exact Option.some.inj h
  | succ rounds ih =>
    rw [interpretFrom?] at h
    obtain ⟨evaluation, hreduce, hrest⟩ := Option.bind_eq_some_iff.1 h
    rw [interpretFrom, reduce_of_reduce? hreduce]
    cases houtcome : evaluation.outcome with
    | failure f =>
      simp only [houtcome] at hrest ⊢
      exact Option.some.inj hrest
    | unfinished =>
      simp only [houtcome] at hrest ⊢
      exact Option.some.inj hrest
    | value v =>
      simp only [houtcome] at hrest ⊢
      by_cases hstop : (v.isIdent || v = t) = true
      · rw [if_pos hstop] at hrest ⊢
        exact Option.some.inj hrest
      · rw [if_neg hstop] at hrest ⊢
        obtain ⟨more, hmore, hr⟩ := Option.bind_eq_some_iff.1 hrest
        rw [ih hmore]
        exact Option.some.inj hr

theorem interpret_of_interpret? {r : Interpretation} (h : e.interpret? = some r) :
    e.interpret = r := by
  cases hfault : e.program.entryFault? e.config with
  | some fault =>
    rw [interpret?, hfault] at h
    rw [interpret, hfault]
    exact Option.some.inj h
  | none =>
    rw [interpret?, hfault] at h
    rw [interpret, hfault]
    exact interpretFrom_of_interpretFrom? h

/-! ### Where no term is missing -/

theorem finish?_of_whole (hprogram : wholeContents.OfProgram e.program) (h : wholeContents.Holds m) :
    e.finish? m = some (e.finish m) := by
  have hsafe : ∀ m', Reaches e.program e.config m m' →
      m'.crashes e.program e.config = false :=
    fun _ hreaches => crashes_of_whole (h.reaches wholeContents_kept hprogram hreaches)
  rw [finish?, run?_eq hsafe]
  rfl

theorem holds_machine (e : Evaluator) {t : Term} (ht : t.Whole) :
    wholeContents.Holds (e.machine (.reduce t)) :=
  ⟨ht, nofun, fun _ _ => trivial, nofun⟩

theorem reduce?_of_whole (hprogram : wholeContents.OfProgram e.program) {t : Term} (ht : t.Whole) :
    e.reduce? t = some (e.reduce t) :=
  finish?_of_whole hprogram (e.holds_machine ht)

theorem call?_of_whole (hprogram : wholeContents.OfProgram e.program) (name : String)
    {args : List Term} (hargs : ∀ x ∈ args, x.Whole) :
    e.call? name args = some (e.call name args) := by
  -- What the machine was about to do before the call is no matter: it may as well be whole.
  have hcall : wholeContents.Holds
      ((e.machine (.reduce .hole)).call e.program e.config name args false []) :=
    (e.holds_machine .marker).call wholeContents_kept hprogram name hargs false
      (fun _ hf => by cases hf)
  rw [call?, callCrashes_of_whole hargs]
  exact finish?_of_whole hprogram hcall

theorem interpretFrom?_of_whole (hprogram : wholeContents.OfProgram e.program) {t : Term}
    (ht : t.Whole) (rounds : Nat) :
    interpretFrom? rounds e t = some (interpretFrom rounds e t) := by
  induction rounds generalizing e t with
  | zero => rfl
  | succ rounds ih =>
    have hwhole := Contents.ofEvaluation_reduce wholeContents_kept hprogram
      (fun _ _ => trivial) ht
    have hvalue := hwhole.outcome
    rw [interpretFrom?, interpretFrom, reduce?_of_whole hprogram ht]
    simp only [Option.bind_eq_bind, Option.bind_some]
    cases houtcome : (e.reduce t).outcome with
    | failure f => rfl
    | unfinished => rfl
    | value v =>
      rw [houtcome] at hvalue
      have hrest := ih (e := (e.reduce t).evaluator) hprogram hvalue
      simp only [hrest]
      split <;> rfl

theorem interpret?_of_whole (hprogram : wholeContents.OfProgram e.program)
    (hseed : e.config.seedTerm.Whole) : e.interpret? = some e.interpret := by
  have hstart : (Term.app [.ident e.config.entryName, e.config.seedTerm]).Whole := by
    simpa using hseed
  cases hfault : e.program.entryFault? e.config with
  | some fault => rw [interpret?, interpret, hfault]
  | none =>
    rw [interpret?, interpret, hfault]
    exact interpretFrom?_of_whole hprogram hstart _

end Evaluator

/-! ## Loading -/

namespace Program

theorem foldlM_of_extend? {linear : Bool} {ds : List Term} {p : Program}
    {r : Except LoadError Program} (h : p.extend? linear ds = some r) :
    ds.foldlM (add linear) p = r := by
  induction ds generalizing p with
  | nil => exact Option.some.inj h
  | cons d ds ih =>
    rw [extend?] at h
    rw [List.foldlM_cons]
    split at h
    · cases h
    · cases hadd : p.add linear d with
      | error err =>
        simp only [hadd] at h
        exact Option.some.inj h
      | ok p' =>
        simp only [hadd] at h
        exact ih h

/-- Loading that does not crash is loading that takes no heed of crashes. -/
theorem load_of_load? {linear : Bool} {ds : List Term} {r : Except LoadError Program}
    (h : load? linear ds = some r) : load linear ds = r :=
  foldlM_of_extend? h

/-- A whole declaration can be written down, and so can its constructors. -/
theorem crashes_of_whole {d : Term} (hd : d.Whole) (p : Program) : p.crashes d = false := by
  unfold crashes
  split
  · rename_i head rest
    have hall := Term.whole_seq.1 hd
    have hconstructors : (Term.constructors (head :: rest)).any isHeadless = false := by
      rw [List.any_eq_false]
      intro c hc
      have hwhole : c.Whole := hall c (List.mem_of_mem_tail (List.mem_of_mem_filter hc))
      unfold isHeadless
      split
      · rename_i first others
        simp [(Term.whole_seq.1 hwhole first List.mem_cons_self).text?]
      · simp
    simp [(hall head List.mem_cons_self).text?, hconstructors]
  · rename_i head args body
    have happ := (Term.whole_rel.1 hd).1
    simp [(Term.whole_seq.1 happ head List.mem_cons_self).text?]
  · rfl

theorem extend?_of_whole (linear : Bool) {ds : List Term} (hds : ∀ d ∈ ds, d.Whole)
    (p : Program) : p.extend? linear ds = some (ds.foldlM (add linear) p) := by
  induction ds generalizing p with
  | nil => rfl
  | cons d ds ih =>
    rw [List.forall_mem_cons] at hds
    rw [extend?, if_neg (by simp [crashes_of_whole hds.1]), List.foldlM_cons]
    cases p.add linear d with
    | error err => rfl
    | ok p' => exact ih hds.2 p'

/-- Whole declarations are loaded without a crash. -/
theorem load?_of_whole (linear : Bool) {ds : List Term} (hds : ∀ d ∈ ds, d.Whole) :
    load? linear ds = some (load linear ds) :=
  extend?_of_whole linear hds .empty

end Program

end Clausal
