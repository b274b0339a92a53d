/-
  Clausal.Proofs.Capture

  Closed programs are free of capture. Bindings are put into a body one after the other and nothing
  is renamed, so a value that mentions a variable may have it replaced by a later binding. This
  cannot happen in a program whose clauses mention no variable but their parameters, as long as the
  term that is evaluated mentions none: then no variable ever stands in an argument or in a result,
  and putting the bindings in one after the other is putting them in at once.

    * `Clause.instantiate_eq_replace`: closed values are put into a body at once;
    * `Program.keeps_closed`: calls of a scoped program keep terms closed;
    * `Evaluator.closed_runs_free_of_capture`: what this means for every evaluation.
-/
import Clausal.Proofs.Loading
import Clausal.Proofs.Returns
import Clausal.Proofs.Substitution

namespace Clausal

open Event

/-! ## Closed terms and scoped clauses -/

/-- No variable stands in a term. -/
def Term.Closed (t : Term) : Prop :=
  ∀ n, Pattern.isVariableName n = true → Term.occurs (.ident n) t = false

theorem Term.Closed.inner {t : Term} (h : (Term.group t).Closed) : t.Closed := by
  intro n hn
  have hgroup := h n hn
  rwa [occurs_group] at hgroup

theorem Term.Closed.element {xs : List Term} (h : (Term.app xs).Closed) : ∀ x ∈ xs, x.Closed := by
  intro x hx n hn
  have happ := h n hn
  rw [occurs_seq, List.any_eq_false] at happ
  exact Bool.eq_false_iff.2 (happ x hx)

theorem Term.Closed.app {xs : List Term} (h : ∀ x ∈ xs, x.Closed) : (Term.app xs).Closed := by
  intro n hn
  rw [occurs_seq, List.any_eq_false]
  intro x hx
  rw [h x hx n hn]
  exact Bool.false_ne_true

theorem Term.Closed.ident {n : String} (h : Pattern.isVariableName n = false) :
    (Term.ident n).Closed := by
  intro m hm
  rw [occurs_ident, decide_eq_false_iff_not]
  rintro rfl
  rw [h] at hm
  cases hm

namespace Clause

/-- Every variable that stands in the body of a clause is one of its parameters. -/
def Scoped (c : Clause) : Prop :=
  ∀ n, Pattern.isVariableName n = true → Term.occurs (.ident n) c.body = true → .var n ∈ c.params

/-- What the parameters of a clause bind goes by the name of a variable. -/
def BindsVariables (c : Clause) : Prop := ∀ n, .var n ∈ c.params → Pattern.isVariableName n = true

variable {c : Clause} {values : List Term}

/-- Closed values are put into the body of a clause all at once. -/
theorem instantiate_eq_replace (hc : c.BindsVariables) (hvalues : ∀ v ∈ values, v.Closed) :
    c.instantiate values
      = c.body.replace fun n => Bindings.latest n (Pattern.bindings c.params values) := by
  have hpairwise : (Bindings.gather (Pattern.bindings c.params values)).Pairwise
      fun entry later => Term.occurs (.ident later.1) entry.2 = false := by
    apply List.pairwise_of_forall_mem_list
    intro entry hentry later hlater
    obtain ⟨-, hvalue⟩ := Pattern.mem_bindings (Bindings.mem_of_gather hentry)
    obtain ⟨hvar, -⟩ := Pattern.mem_bindings (Bindings.mem_of_gather hlater)
    exact hvalues _ hvalue _ (hc _ hvar)
  rw [instantiate, Bindings.apply_eq_replace_lookup hpairwise]
  exact Term.replace_congr fun n _ => Bindings.lookup_gather n _

/-- A scoped body with closed values in the places of its variables is closed. -/
theorem instantiate_closed (hc : c.BindsVariables) (hscoped : c.Scoped)
    (hlen : c.params.length ≤ values.length) (hvalues : ∀ v ∈ values, v.Closed) :
    (c.instantiate values).Closed := by
  intro n hn
  rw [instantiate_eq_replace hc hvalues]
  by_contra hoccurs
  rw [Bool.not_eq_false, Term.occurs_replace] at hoccurs
  obtain ⟨m, hm, hin⟩ := hoccurs
  cases hlatest : Bindings.latest m (Pattern.bindings c.params values) with
  | some v =>
    -- What stands in the place of a bound name is one of the values.
    rw [hlatest, Option.getD_some] at hin
    obtain ⟨-, hv⟩ := Pattern.mem_bindings (Bindings.mem_of_latest hlatest)
    rw [hvalues v hv n hn] at hin
    cases hin
  | none =>
    -- A name that stays is the one asked for, and as a variable it would be bound.
    rw [hlatest, Option.getD_none, Term.occurs_ident, decide_eq_true_eq] at hin
    subst hin
    obtain ⟨v, hv⟩ := Pattern.exists_mem_bindings hlen (hscoped m hn hm)
    obtain ⟨w, hw⟩ := Bindings.exists_latest hv
    rw [hlatest] at hw
    cases hw

/-- A parameter that binds is an identifier with a capital first letter. -/
theorem bindsVariables_of_compile {linear : Bool} {left right : Term}
    (h : compile linear left right = .ok c) : c.BindsVariables := by
  obtain ⟨head, args, -, rfl⟩ := compile_ok h
  intro n hn
  obtain ⟨t, -, ht⟩ := List.mem_map.1 hn
  unfold Pattern.ofTerm at ht
  split at ht
  · split at ht
    · cases ht
    · split at ht
      · rename_i hname
        cases ht
        exact hname
      · cases ht
  · cases ht

end Clause

/-! ## Programs -/

namespace Program

/-- Something that all the clauses of a program have in common. -/
def Each (holds : Clause → Prop) (p : Program) : Prop :=
  ∀ name clauses, p.clauses.get? name = some clauses → ∀ c ∈ clauses, holds c

variable {holds : Clause → Prop} {linear : Bool}

/-- What compiling gives to each clause, all the clauses of a loaded program have. -/
theorem Each.of_load (hcompile : ∀ left right c, Clause.compile linear left right = .ok c → holds c)
    {ds : List Term} {p : Program} (hload : load linear ds = .ok p) : p.Each holds := by
  intro name clauses hclauses c hc
  obtain ⟨left, right, -, hcompiled⟩ := exists_declaration hload hclauses hc
  exact hcompile left right c hcompiled

/-- Every variable that stands in the body of a clause is one of its parameters. -/
def Scoped (p : Program) : Prop := p.Each Clause.Scoped

variable {p : Program}

/-- The clause that a call selects puts closed values into a body that it keeps closed. -/
theorem instantiate_selected (hbinds : p.Each Clause.BindsVariables) (hscoped : p.Scoped)
    {name : String} {earlier later : List Clause} {c : Clause} {n : Nat} {values : List Term}
    (hclauses : p.clauses.get? name = some (earlier ++ c :: later))
    (hselects : Selects earlier c n values) (hvalues : ∀ v ∈ values, v.Closed) :
    (c.instantiate values).Closed ∧ c.instantiate values
      = c.body.replace fun m => Bindings.latest m (Pattern.bindings c.params values) := by
  have hmem : c ∈ earlier ++ c :: later := by simp
  have hc := hbinds name _ hclauses c hmem
  have hbody := hscoped name _ hclauses c hmem
  exact ⟨Clause.instantiate_closed hc hbody hselects.accepted.2.1 hvalues,
    Clause.instantiate_eq_replace hc hvalues⟩

/-- A closed term has a closed value. -/
theorem Evaluates.closed (hbinds : p.Each Clause.BindsVariables) (hscoped : p.Scoped) {t v : Term}
    (h : p.Evaluates t v) (ht : t.Closed) : v.Closed := by
  induction h with
  | group _ ih => exact ih ht.inner
  | nothing => exact ht
  | single _ ih => exact ih (ht.element _ List.mem_cons_self)
  | constructor _ _ _ => exact ht
  | @call _ _ _ _ values _ _ _ _ _ _ hclauses hlen _ hselects _ _ ihargs ihbody =>
    have hargs := (List.forall_mem_cons.1 ht.element).2
    have hvalues : ∀ w ∈ values, w.Closed :=
      Pointwise.forall_values ihargs hlen fun x hx w hw => hw (hargs x hx)
    exact ihbody (instantiate_selected hbinds hscoped hclauses hselects hvalues).1
  | ident name => exact ht
  | arrow elems => exact ht
  | entity elems => exact ht
  | rel kind left right => exact ht
  | builtin left right => exact ht

/-- A call returns the body of the clause that is selected, with the value that each variable was
    bound to last in its place, all put in at once. -/
def ReturnsAtOnce (p : Program) (name : String) (args : List Term) (body : Term) : Prop :=
  ∃ earlier c later values, p.clauses.get? name = some (earlier ++ c :: later) ∧
    values.length ≤ args.length ∧ Pointwise p.Evaluates args values ∧
    Selects earlier c args.length values ∧
    body = c.body.replace fun n => Bindings.latest n (Pattern.bindings c.params values)

/-- A call of closed arguments returns a closed body, into which the values were put at once. -/
theorem Returns.closed (hbinds : p.Each Clause.BindsVariables) (hscoped : p.Scoped) {name : String}
    {args : List Term} {body : Term} (h : p.Returns name args body) (hargs : ∀ x ∈ args, x.Closed) :
    body.Closed ∧ p.ReturnsAtOnce name args body := by
  obtain ⟨earlier, c, later, values, hclauses, hlen, hvalues, hselects, rfl⟩ := h.selects
  have hclosed : ∀ v ∈ values, v.Closed :=
    hvalues.forall_values hlen fun x hx v hv => hv.closed hbinds hscoped (hargs x hx)
  obtain ⟨hbody, hatOnce⟩ := instantiate_selected hbinds hscoped hclauses hselects hclosed
  exact ⟨hbody, earlier, c, later, values, hclauses, hlen, hvalues, hselects, hatOnce⟩

theorem keeps_closed (hbinds : p.Each Clause.BindsVariables) (hscoped : p.Scoped) :
    p.Keeps Term.Closed where
  inner := Term.Closed.inner
  element := Term.Closed.element
  call hargs hreturns := (hreturns.closed hbinds hscoped hargs).1

end Program

/-! ## Evaluations -/

/-- No variable stands in what is passed to a call or comes out of one, and each call that is left
    with a body was the innermost open one and had the values of its variables put in at once. -/
structure FreeOfCapture (p : Program) (events : List (Event Failure)) : Prop where
  entered : ∀ depth name args, .enter depth name args ∈ events → ∀ x ∈ args, x.Closed
  left : ∀ before depth name body after, events = before ++ .leave depth name (.ok body) :: after →
    body.Closed ∧ ∃ args calls, replay [] before = some (⟨name, args⟩ :: calls) ∧
      p.ReturnsAtOnce name args body

theorem FreeOfCapture.of_justifies {p : Program} (hbinds : p.Each Clause.BindsVariables)
    (hscoped : p.Scoped) {events : List (Event Failure)}
    (h : p.Justifies Term.Closed events) : FreeOfCapture p events := by
  have hentered : ∀ depth name args, .enter depth name args ∈ events → ∀ x ∈ args, x.Closed := by
    intro depth name args hmem
    obtain ⟨before, after, rfl⟩ := List.append_of_mem hmem
    exact h before (.enter depth name args) ⟨after, by simp⟩
  refine ⟨hentered, ?_⟩
  rintro before depth name body after rfl
  obtain ⟨hbody, args, calls, hreplayed, hreturns⟩ :=
    h before (.leave depth name (.ok body)) ⟨after, by simp⟩
  -- The call was entered with these arguments, so they are closed.
  obtain ⟨depth', henter⟩ := mem_of_replay hreplayed ⟨name, args⟩ List.mem_cons_self
  have hargs := hentered depth' name args (List.mem_append_left _ henter)
  exact ⟨hbody, args, calls, hreplayed, (hreturns.closed hbinds hscoped hargs).2⟩

theorem Config.seedTerm_closed {config : Config} (h : config.seed.Closed) :
    config.seedTerm.Closed := by
  unfold Config.seedTerm
  split
  · exact .ident (by decide)
  · exact h

namespace Evaluator

/-- **Closed programs are free of capture.** Let each variable in the body of a clause be one of the
    clause's parameters. Then an evaluation of a term without variables passes none to a call and
    gets none out of one, its value has none, and every call that returns puts the values of its
    variables into the body at once. The same holds of running the program on a seed without
    variables, except that an entry which is itself named like a variable and is a constructor
    without clauses comes out as it went in. -/
theorem closed_runs_free_of_capture {linear : Bool} {ds : List Term} (e : Evaluator)
    (hload : Program.load linear ds = .ok e.program) (hscoped : e.program.Scoped)
    (hcalls : e.calls = .empty) :
    (∀ t : Term, t.Closed → FreeOfCapture e.program (e.reduce t).events ∧
      ∀ v, (e.reduce t).outcome = .value v → v.Closed) ∧
    (e.config.seed.Closed → FreeOfCapture e.program e.interpret.events ∧
      ∀ v, e.interpret.verdict = .value v → v.Closed ∨
        Pattern.isVariableName e.config.entryName = true ∧
          e.program.isValueHead e.config.entryName = true ∧
          v = .app [.ident e.config.entryName, e.config.seedTerm]) := by
  have hbinds : e.program.Each Clause.BindsVariables :=
    .of_load (fun _ _ _ => Clause.bindsVariables_of_compile) hload
  have hkeeps := Program.keeps_closed hbinds hscoped
  constructor
  · intro t ht
    have haccounted := reduce_accounted hkeeps hcalls ht
    exact ⟨.of_justifies hbinds hscoped haccounted.events, haccounted.value⟩
  · intro hseed
    have hclosed := Config.seedTerm_closed hseed
    have haccounted := interpret_accounted hkeeps hcalls hclosed
    refine ⟨.of_justifies hbinds hscoped haccounted.events, ?_⟩
    intro v hv
    rcases haccounted.value v hv with hv | ⟨hvalue, rfl⟩
    · exact .inl hv
    · -- An entry that is no variable is closed, and so is its application to the seed.
      cases hentry : Pattern.isVariableName e.config.entryName with
      | false =>
        left
        apply Term.Closed.app
        rw [List.forall_mem_cons, List.forall_mem_singleton]
        exact ⟨.ident hentry, hclosed⟩
      | true => exact .inr ⟨rfl, hvalue, rfl⟩

/-- A program that mentions no variable but the parameters of its clauses. -/
theorem keepProgram_scoped : keepProgram.Scoped := by
  intro name clauses hclauses c hc n hn hoccurs
  have hmem := Environment.mem_entries_of_get? hclauses
  simp only [keepProgram, List.mem_cons, Prod.mk.injEq, List.not_mem_nil, or_false] at hmem
  rcases hmem with ⟨-, rfl⟩ | ⟨-, rfl⟩
  · rw [List.mem_singleton.1 hc] at hoccurs ⊢
    have hname : "X" = n := by simpa [keepClause] using hoccurs
    simp [keepClause, hname]
  · rw [List.mem_singleton.1 hc] at hoccurs ⊢
    have hname : "spin" = n ∨ "X" = n := by simpa [spinClause] using hoccurs
    rcases hname with rfl | rfl
    · exact absurd hn (by decide)
    · simp [spinClause]

theorem closed_runs_free_of_capture_keep :
    ((new keepProgram .bare .quiet).reduce (.app [.ident "keep", .ident "a"])).outcome
        = .value (.ident "a") ∧
      FreeOfCapture keepProgram
        ((new keepProgram .bare .quiet).reduce (.app [.ident "keep", .ident "a"])).events := by
  have hclosed : (Term.app [.ident "keep", .ident "a"]).Closed := by
    apply Term.Closed.app
    rw [List.forall_mem_cons, List.forall_mem_singleton]
    exact ⟨.ident (by decide), .ident (by decide)⟩
  have hload : Program.load false keepDeclarations = .ok (new keepProgram .bare .quiet).program :=
    rfl
  have hfree := ((closed_runs_free_of_capture (new keepProgram .bare .quiet) hload
    keepProgram_scoped rfl).1 _ hclosed).1
  have hreduce : (new keepProgram .bare .quiet).reduce (.app [.ident "keep", .ident "a"]) = _ :=
    finish_of_iterate 7 rfl (by decide)
  refine ⟨?_, hfree⟩
  rw [hreduce]
  rfl

/-- A type whose constructor is named like a variable, and a signature that lets it be run. -/
def capitalDeclarations : List Term :=
  [.entity [.ident "t", .app [.ident "Main", .ident "a"]],
    .isa (.ident "Main") (.arrow [.ident "a", .ident "'unit"])]

/-- The program that they make. It has no clauses. -/
def capitalProgram : Program :=
  ⟨⟨[("t", .entity [.ident "t", .app [.ident "Main", .ident "a"]])]⟩, .empty,
    ⟨[("Main", .arrow [.ident "a", .ident "'unit"])]⟩, [("Main", "t")]⟩

/-- The usual settings, but for the entry. -/
def capitalConfig : Config := { Config.standard with entry := "Main" }

/-- An entry that is named like a variable may come out again, although neither the clauses nor the
    seed mention one. -/
theorem variable_entry_comes_out :
    Program.load capitalConfig.linear capitalDeclarations = .ok capitalProgram ∧
      capitalProgram.Scoped ∧ capitalConfig.seed.Closed ∧
      ∃ v n, (new capitalProgram capitalConfig .quiet).interpret.verdict = .value v ∧
        Pattern.isVariableName n = true ∧ Term.occurs (.ident n) v = true := by
  refine ⟨rfl, ?_, .ident (by decide), .app [.ident "Main", .ident "true"], "Main", ?_, by decide,
    by decide⟩
  · rintro name clauses ⟨⟩
  · have hreduce : (new capitalProgram capitalConfig .quiet).reduce
        (.app [.ident "Main", .ident "true"]) = _ := finish_of_iterate 3 rfl (by decide)
    have hentry : (new capitalProgram capitalConfig .quiet).program.entryFault?
        (new capitalProgram capitalConfig .quiet).config = none := by decide
    have hlast : ∀ v, ((new capitalProgram capitalConfig .quiet).reduce
        (.app [.ident "Main", .ident "true"])).outcome = .value v →
        v.isIdent = true ∨ v = .app [.ident "Main", .ident "true"] := by
      intro v hv
      rw [hreduce] at hv
      cases hv
      exact .inr rfl
    unfold interpret
    rw [hentry]
    have hstart : Term.app [.ident (new capitalProgram capitalConfig .quiet).config.entryName,
        (new capitalProgram capitalConfig .quiet).config.seedTerm]
          = .app [.ident "Main", .ident "true"] := by decide
    simp only
    rw [hstart, interpretFrom_last hlast, hreduce]
    rfl

end Evaluator

end Clausal
