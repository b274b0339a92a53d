/-
  Clausal.Proofs.Reordering

  Only the order of the clauses of one function matters. An evaluation asks a program three things:
  the clauses of a name, whether a name is that of a value, and the signature of the entry. Programs
  that give the same answers are run alike, step by step (`Machine.step_alike`, `Machine.run_congr`).
  Declarations may be put in another order as long as those of one function keep theirs: they are
  then loaded or refused as before, and the program gives the same answers (`Program.alike_of_perm`).
-/
import Clausal.Proofs.Extension
import Clausal.Proofs.Loading

namespace Clausal

namespace Program

/-! ## Programs that give the same answers -/

/-- Two programs answer alike whatever an evaluation asks. -/
structure Alike (p p' : Program) : Prop where
  clauses : ∀ name, p'.clauses.get? name = p.clauses.get? name
  values : ∀ name, p'.isValueHead name = p.isValueHead name
  bindings : ∀ name, p'.bindings.get? name = p.bindings.get? name

theorem Alike.entryFault? {p p' : Program} (h : p.Alike p') (config : Config) :
    p'.entryFault? config = p.entryFault? config := by
  simp only [Program.entryFault?, h.bindings]

end Program

namespace Machine

variable {p p' : Program} {config : Config}

theorem call_congr (hclauses : ∀ name, p'.clauses.get? name = p.clauses.get? name) (m : Machine)
    (name : String) (args : List Term) (goOn : Bool) (frames : List Frame) :
    m.call p' config name args goOn frames = m.call p config name args goOn frames := by
  simp only [call, hclauses]

/-- A step asks for clauses and values only. -/
theorem step_congr (hclauses : ∀ name, p'.clauses.get? name = p.clauses.get? name)
    (hvalues : ∀ name, p'.isValueHead name = p.isValueHead name) (m : Machine) :
    m.step p' config = m.step p config := by
  simp only [step, giveValue, hvalues, call_congr hclauses]

theorem step_alike (h : p.Alike p') (m : Machine) : m.step p' config = m.step p config :=
  step_congr h.clauses h.values m

/-- Programs under which each step is the same run a machine to the same end. -/
theorem run_congr (h : ∀ m : Machine, m.step p' config = m.step p config) (limit : Nat)
    (m : Machine) : m.run p' config limit = m.run p config limit := by
  induction m using run.induct p config limit with
  | case1 m r hr => rw [run_of_result limit hr, run_of_result limit hr]
  | case2 m hr next hle ih =>
    have hle' : (m.step p' config).steps ≤ limit := by
      rw [h]
      exact hle
    rw [run_of_step hr hle, run_of_step hr hle', h]
    exact ih
  | case3 m hr next hgt =>
    have hgt' : ¬ (m.step p' config).steps ≤ limit := by
      rw [h]
      exact hgt
    rw [run_of_exceeded hr hgt, run_of_exceeded hr hgt']

end Machine

namespace Evaluator

variable {e : Evaluator} {p' : Program}

theorem finish_congr (h : ∀ m : Machine, m.step p' e.config = m.step e.program e.config)
    (m : Machine) : (e.under p').finish m = (e.finish m).under p' := by
  rcases hrun : m.run e.program e.config e.config.horizon with ⟨result, m'⟩
  have hrun' : m.run p' e.config e.config.horizon = (result, m') := by
    rw [Machine.run_congr h, hrun]
  rw [finish_eq hrun, finish_eq (e := e.under p') hrun']
  rfl

theorem reduce_congr (h : ∀ m : Machine, m.step p' e.config = m.step e.program e.config)
    (t : Term) : (e.under p').reduce t = (e.reduce t).under p' :=
  finish_congr h (e.machine (.reduce t))

theorem interpretFrom_congr (h : ∀ m : Machine, m.step p' e.config = m.step e.program e.config)
    (rounds : Nat) (t : Term) :
    interpretFrom rounds (e.under p') t = (interpretFrom rounds e t).under p' := by
  induction rounds generalizing e t with
  | zero => rfl
  | succ rounds ih =>
    have hnext := fun v => ih (e := (e.reduce t).evaluator) h v
    rw [interpretFrom, interpretFrom, reduce_congr h]
    simp only [Evaluation.under, hnext]
    split
    · rfl
    · rfl
    · split <;> rfl

theorem reduce_alike (h : e.program.Alike p') (t : Term) :
    (e.under p').reduce t = (e.reduce t).under p' := reduce_congr (Machine.step_alike h) t

theorem call_alike (h : e.program.Alike p') (name : String) (args : List Term) :
    (e.under p').call name args = (e.call name args).under p' := by
  have hcall : (e.machine (.reduce .hole)).call p' e.config name args false []
      = (e.machine (.reduce .hole)).call e.program e.config name args false [] :=
    Machine.call_congr h.clauses _ name args false []
  exact (congrArg (e.under p').finish hcall).trans (finish_congr (Machine.step_alike h) _)

theorem interpret_alike (h : e.program.Alike p') :
    (e.under p').interpret = e.interpret.under p' := by
  have hentry : (e.under p').program.entryFault? (e.under p').config
      = e.program.entryFault? e.config := h.entryFault? e.config
  rw [interpret, interpret, hentry]
  split
  · rfl
  · exact interpretFrom_congr (Machine.step_alike h) _ _

end Evaluator

/-! ## Declarations in another order -/

/-- Whether a declaration is a clause of the function with a name. -/
def Term.defines (name : String) : Term → Bool
  | .define (.app (head :: _)) _ => head.render = name
  | _ => false

namespace Program

variable {linear : Bool} {ds ds' : List Term}

/-- A clause goes by the name of the function that it is declared for. -/
theorem defines_of_clause {d : Term} {c : Clause}
    (h : (item? linear d).bind Item.clause? = some c) (name : String) :
    d.defines name = decide (c.name = name) := by
  obtain ⟨item, hitem, hclause⟩ := Option.bind_eq_some_iff.1 h
  cases item with
  | clause c' =>
    cases hclause
    obtain ⟨left, right, rfl, hcompile⟩ := item?_eq_clause hitem
    obtain ⟨head, args, rfl, rfl⟩ := Clause.compile_ok hcompile
    rfl
  | type other elems => cases hclause
  | binding other right => cases hclause

/-- The clauses of a function come from the declarations of its clauses, and of no others. -/
theorem clausesFor_eq (linear : Bool) (ds : List Term) (name : String) :
    clausesFor (ds.filterMap (item? linear)) name
      = ((ds.filter (Term.defines name)).filterMap (item? linear)).filterMap Item.clause? := by
  rw [clausesFor, List.filterMap_filterMap, List.filterMap_filterMap, List.filter_filterMap,
    List.filterMap_filter]
  refine List.filterMap_congr fun d _ => ?_
  cases hclause : (item? linear d).bind Item.clause? with
  | none => simp
  | some c => simp [defines_of_clause hclause, Option.filter]

theorem Distinct.perm {items items' : List Item} (h : Distinct items) (hperm : items.Perm items') :
    Distinct items' where
  types := (hperm.filterMap _).nodup_iff.1 h.types
  bindings := ((hperm.filterMap _).map _).nodup_iff.1 h.bindings

/-- Signatures with different names are found in whatever order they stand. -/
theorem lookup_eq_of_perm {l l' : List (String × Term)} (hperm : l.Perm l')
    (hnodup : (l.map Prod.fst).Nodup) (name : String) : l'.lookup name = l.lookup name := by
  induction hperm with
  | nil => rfl
  | cons x _ ih =>
    rw [List.map_cons, List.nodup_cons] at hnodup
    rw [List.lookup_cons, List.lookup_cons, ih hnodup.2]
  | swap x y l =>
    have hne : y.1 ≠ x.1 := by
      rw [List.map_cons, List.map_cons, List.nodup_cons, List.mem_cons] at hnodup
      exact fun h => hnodup.1 (.inl h)
    rw [List.lookup_cons, List.lookup_cons, List.lookup_cons, List.lookup_cons]
    by_cases hx : name = x.1
    · simp [hx, beq_false_of_ne hne.symm]
    · simp [beq_false_of_ne hx]
  | trans hfirst _ ih₁ ih₂ =>
    rw [ih₂ ((hfirst.map _).nodup_iff.1 hnodup), ih₁ hnodup]

/-- Declarations in another order, in which the clauses of each function stand as they did, make a
    program that answers alike. -/
theorem alike_of_perm {p : Program} (hload : load linear ds = .ok p) (hperm : ds.Perm ds')
    (horder : ∀ name, ds'.filter (Term.defines name) = ds.filter (Term.defines name)) :
    ∃ p', load linear ds' = .ok p' ∧ p.Alike p' := by
  obtain ⟨hforms, hdistinct, rfl⟩ := load_eq_ok_iff.1 hload
  have hitems : (ds.filterMap (item? linear)).Perm (ds'.filterMap (item? linear)) :=
    hperm.filterMap _
  refine ⟨_, load_eq_ok_iff.2 ⟨fun d hd => hforms d (hperm.mem_iff.2 hd), hdistinct.perm hitems,
    rfl⟩, ?_⟩
  have hclauses : ∀ name, (ofItems (ds'.filterMap (item? linear))).clauses.get? name
      = (ofItems (ds.filterMap (item? linear))).clauses.get? name := by
    intro name
    rw [clauses_ofItems, clauses_ofItems, clausesFor_eq, clausesFor_eq, horder]
  refine ⟨hclauses, ?_, ?_⟩
  · intro name
    have hconstructors : ((ofItems (ds'.filterMap (item? linear))).typeOfConstructor? name).isSome
        = ((ofItems (ds.filterMap (item? linear))).typeOfConstructor? name).isSome := by
      rw [Bool.eq_iff_iff, isSome_typeOfConstructor?, isSome_typeOfConstructor?]
      exact (hitems.flatMap_right _).mem_iff.symm
    rw [isValueHead, isValueHead, hconstructors, Environment.contains, Environment.contains,
      hclauses]
  · intro name
    rw [bindings_ofItems, bindings_ofItems]
    have hbindings := hitems.filterMap Item.binding?
    refine lookup_eq_of_perm ((List.reverse_perm _).trans
      (hbindings.trans (List.reverse_perm _).symm)) ?_ name
    rw [List.map_reverse, List.nodup_reverse]
    exact hdistinct.bindings

end Program

/-- **Only the order of the clauses of one function matters.** Let some declarations be put in
    another order in which the clauses of each function stand as they did. Then they are loaded
    exactly if they were before, and whatever is reduced, called or run in the one program comes to
    the same in the other, with as many calls and the same events, however the budgets and the
    interrupt are set. -/
theorem order_matters_within_functions_only {ds ds' : List Term} (hperm : ds.Perm ds')
    (horder : ∀ name, ds'.filter (Term.defines name) = ds.filter (Term.defines name))
    (config : Config) :
    ((∃ p, Program.load config.linear ds = .ok p) ↔ ∃ p, Program.load config.linear ds' = .ok p) ∧
    ∀ p p', Program.load config.linear ds = .ok p → Program.load config.linear ds' = .ok p' →
      ∀ signal : Signal,
        (∀ t, ((Evaluator.new p' config signal).reduce t).outcome
              = ((Evaluator.new p config signal).reduce t).outcome ∧
            ((Evaluator.new p' config signal).reduce t).evaluator.steps
              = ((Evaluator.new p config signal).reduce t).evaluator.steps ∧
            ((Evaluator.new p' config signal).reduce t).events
              = ((Evaluator.new p config signal).reduce t).events) ∧
        (∀ name args, ((Evaluator.new p' config signal).call name args).outcome
              = ((Evaluator.new p config signal).call name args).outcome ∧
            ((Evaluator.new p' config signal).call name args).evaluator.steps
              = ((Evaluator.new p config signal).call name args).evaluator.steps ∧
            ((Evaluator.new p' config signal).call name args).events
              = ((Evaluator.new p config signal).call name args).events) ∧
        (Evaluator.new p' config signal).interpret.verdict
            = (Evaluator.new p config signal).interpret.verdict ∧
          (Evaluator.new p' config signal).interpret.steps
            = (Evaluator.new p config signal).interpret.steps ∧
          (Evaluator.new p' config signal).interpret.events
            = (Evaluator.new p config signal).interpret.events := by
  constructor
  · constructor
    · rintro ⟨p, hp⟩
      obtain ⟨p', hp', -⟩ := Program.alike_of_perm hp hperm horder
      exact ⟨p', hp'⟩
    · rintro ⟨p', hp'⟩
      obtain ⟨p, hp, -⟩ := Program.alike_of_perm hp' hperm.symm fun name => (horder name).symm
      exact ⟨p, hp⟩
  · intro p p' hp hp' signal
    obtain ⟨q, hq, halike⟩ := Program.alike_of_perm hp hperm horder
    obtain rfl : q = p' := Except.ok.inj (hq.symm.trans hp')
    have hnew : Evaluator.new q config signal = (Evaluator.new p config signal).under q := rfl
    have hprogram : (Evaluator.new p config signal).program.Alike q := halike
    rw [hnew]
    refine ⟨fun t => ?_, fun name args => ?_, ?_⟩
    · rw [Evaluator.reduce_alike hprogram]
      exact ⟨rfl, rfl, rfl⟩
    · rw [Evaluator.call_alike hprogram]
      exact ⟨rfl, rfl, rfl⟩
    · rw [Evaluator.interpret_alike hprogram]
      exact ⟨rfl, rfl, rfl⟩

/-- The declarations above and those behind them, but for the two clauses of one function in
    another order. -/
def shuffledDeclarations : List Term :=
  [.entity [.ident "t", .app [.ident "a", .ident "t"]],
    .define (.app [.ident "keep", .ident "X"]) (.ident "X"),
    .define (.app [.ident "keep", .ident "Y"]) (.app [.ident "spin", .ident "Y"]),
    .define (.app [.ident "spin", .ident "X"]) (.app [.ident "spin", .ident "X"])]

/-- The first clause of the function is still the first one tried. -/
theorem order_matters_within_functions_only_keep :
    ∃ p, Program.load false shuffledDeclarations = .ok p ∧
      ((Evaluator.new p .bare .quiet).reduce (.app [.ident "keep", .ident "a"])).outcome
        = .value (.ident "a") := by
  have hperm : (Evaluator.keepDeclarations ++ laterDeclarations).Perm shuffledDeclarations := by
    decide
  have horder : ∀ name, shuffledDeclarations.filter (Term.defines name)
      = (Evaluator.keepDeclarations ++ laterDeclarations).filter (Term.defines name) := by
    intro name
    by_cases hspin : "spin" = name
    · subst hspin
      rfl
    · by_cases hkeep : "keep" = name
      · subst hkeep
        rfl
      · simp [shuffledDeclarations, Evaluator.keepDeclarations, laterDeclarations, Term.defines,
          Term.render, hspin, hkeep]
  have hbefore : Program.load Config.bare.linear (Evaluator.keepDeclarations ++ laterDeclarations)
      = .ok _ := rfl
  have hafter : Program.load Config.bare.linear shuffledDeclarations = .ok _ := rfl
  obtain ⟨houtcome, -, -⟩ := ((order_matters_within_functions_only hperm horder .bare).2 _ _ hbefore
    hafter .quiet).1 (.app [.ident "keep", .ident "a"])
  refine ⟨_, hafter, houtcome.trans ?_⟩
  rw [Evaluator.reduce, Evaluator.finish_of_iterate 6 rfl (by decide)]
  rfl

end Clausal
