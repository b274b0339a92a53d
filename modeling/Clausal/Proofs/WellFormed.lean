/-
  Clausal.Proofs.WellFormed

  The front end and the evaluator agree on what is well formed.

  Declarations that were parsed are refused only for a name that is declared twice or, in a linear
  program, for a variable that is repeated (`Program.add_statement_error`). The bodies of their
  clauses are plain: identifiers other than the wildcard, groups, and applications and arrows of at
  least two elements. An evaluation of a plain term meets plain terms only, so that it can fail in a
  few ways only, and never for a marker or a missing term.
-/
import Clausal.Proofs.Contents
import Clausal.Proofs.Rounds
import Clausal.Proofs.Spelling

namespace Clausal

open Grammar

/-! ## Tables -/

namespace Environment

variable {α : Type} {e : Environment α} {holds : String × α → Prop}

theorem mem_entries_of_get? {name : String} {value : α} (h : e.get? name = some value) :
    (name, value) ∈ e.entries := by
  obtain ⟨before, behind, hentries, -⟩ := List.lookup_eq_some_iff.1 h
  rw [hentries]
  exact List.mem_append_right _ List.mem_cons_self

theorem forall_put (h : ∀ x ∈ e.entries, holds x) {name : String} {value : α}
    (hvalue : holds (name, value)) : ∀ x ∈ (e.put name value).entries, holds x := by
  rw [put]
  split
  · rw [List.forall_mem_map]
    intro x hx
    split
    · exact hvalue
    · exact h x hx
  · intro x hx
    rcases List.mem_append.1 hx with hx | hx
    · exact h x hx
    · rw [List.mem_singleton.1 hx]
      exact hvalue

end Environment

/-! ## Loading -/

/-- What a clause is compiled to: the name is the text of the head, and each argument is a
    parameter. -/
theorem Clause.compile_ok {linear : Bool} {left right : Term} {c : Clause}
    (h : compile linear left right = .ok c) :
    ∃ head args, left = .app (head :: args) ∧
      c = ⟨head.render, args.map Pattern.ofTerm, right, head :: args⟩ := by
  rw [compile.eq_def] at h
  split at h
  · rename_i head args
    simp only at h
    split at h
    · cases h
    · cases h
      exact ⟨head, args, rfl, rfl⟩
  · cases h

theorem Clause.compile_body {linear : Bool} {left right : Term} {c : Clause}
    (h : compile linear left right = .ok c) : c.body = right := by
  obtain ⟨head, args, -, rfl⟩ := compile_ok h
  rfl

/-- An application is refused on the left of a clause only for a variable that it repeats. -/
theorem Clause.compile_error {linear : Bool} {head right : Term} {args : List Term}
    {err : LoadError} (h : compile linear (.app (head :: args)) right = .error err) :
    linear = true ∧ err.cause = .repeatedVariable := by
  rw [compile] at h
  split at h
  · rename_i repeated hrepeated
    cases h
    refine ⟨?_, rfl⟩
    by_contra hlinear
    rw [if_neg hlinear] at hrepeated
    cases hrepeated
  · cases h

namespace Program

/-- The bodies of the clauses and the names of the signatures are as they should be. -/
structure Built (body : Term → Prop) (name : String → Prop) (p : Program) : Prop where
  clauses : ∀ x ∈ p.clauses.entries, ∀ clause ∈ x.2, body clause.body
  bindings : ∀ x ∈ p.bindings.entries, name x.1

variable {body : Term → Prop} {name : String → Prop} {p p' : Program} {linear : Bool}

theorem Built.addClause (h : p.Built body name) {clause : Clause} (hclause : body clause.body) :
    (p.addClause clause).Built body name := by
  refine ⟨Environment.forall_put h.clauses ?_, h.bindings⟩
  intro x hx
  rcases List.mem_append.1 hx with hx | hx
  · cases hget : p.clauses.get? clause.name with
    | none =>
      rw [hget] at hx
      cases hx
    | some clauses =>
      rw [hget] at hx
      exact h.clauses _ (Environment.mem_entries_of_get? hget) x hx
  · rw [List.mem_singleton.1 hx]
    exact hclause

theorem Built.addBinding (h : p.Built body name) {n : String} (hn : name n) {type : Term}
    (hadd : p.addBinding (.ident n) type = .ok p') : p'.Built body name := by
  rw [Program.addBinding, Environment.define] at hadd
  split at hadd
  · cases hadd
  · rename_i bindings hbindings
    cases hadd
    split at hbindings
    · cases hbindings
    · cases hbindings
      exact ⟨h.clauses, Environment.forall_put h.bindings hn⟩

theorem Built.addType (h : p.Built body name) {elems : List Term}
    (hadd : p.addType elems = .ok p') : p'.Built body name := by
  cases elems with
  | nil => cases hadd
  | cons head rest =>
    rw [Program.addType] at hadd
    split at hadd
    · cases hadd
    · cases hadd
      exact ⟨h.clauses, h.bindings⟩

theorem Built.addCompiled (h : p.Built body name) {elems : List Term} {right : Term}
    (hright : body right)
    (hadd : (Clause.compile linear (.app elems) right).map p.addClause = .ok p') :
    p'.Built body name := by
  cases hcompile : Clause.compile linear (.app elems) right with
  | error err =>
    rw [hcompile] at hadd
    cases hadd
  | ok c =>
    rw [hcompile] at hadd
    cases hadd
    refine h.addClause ?_
    rw [Clause.compile_body hcompile]
    exact hright

/-- A statement of the grammar adds clauses whose bodies are made of the names that are written. -/
theorem Built.add_statement {s : Statement} (hs : ∀ n, .name n ∈ s.symbols → name n)
    (h : p.Built (Term.Formed name 2) name) (hadd : p.add linear s.term = .ok p') :
    p'.Built (Term.Formed name 2) name := by
  cases s with
  | datatype n params cs =>
    have hadd : p.addType (.ident n :: (params.map .ident ++ cs.map Constructor.term)) = .ok p' :=
      hadd
    exact h.addType hadd
  | builtin n type => exact h.addBinding (hs n (by simp [Statement.symbols])) hadd
  | signature n type => exact h.addBinding (hs n (by simp [Statement.symbols])) hadd
  | clause n first more e =>
    have hbody : e.term.Formed name 2 :=
      e.term_formed fun m hm => hs m (by simp [Statement.symbols, hm])
    exact h.addCompiled hbody hadd

/-- Why declarations that come from a text may be refused. -/
def Refuses (linear : Bool) (cause : Cause) : Prop :=
  cause = .duplicateType ∨ cause = .duplicateBinding ∨ linear = true ∧ cause = .repeatedVariable

theorem addBinding_error {n : String} {type : Term} {err : LoadError}
    (h : p.addBinding (.ident n) type = .error err) : err.cause = .duplicateBinding := by
  rw [addBinding] at h
  split at h
  · cases h
    rfl
  · cases h

theorem add_statement_error {s : Statement} {err : LoadError}
    (h : p.add linear s.term = .error err) : Refuses linear err.cause := by
  cases s with
  | datatype n params cs =>
    have h : p.addType (.ident n :: (params.map .ident ++ cs.map Constructor.term))
        = .error err := h
    rw [addType] at h
    split at h
    · cases h
      exact .inl rfl
    · cases h
  | builtin n type => exact .inr (.inl (addBinding_error h))
  | signature n type => exact .inr (.inl (addBinding_error h))
  | clause n first more e =>
    have h : (Clause.compile linear (.app (.ident n :: (first :: more).map Parameter.term))
        e.term).map p.addClause = .error err := h
    cases hcompile : Clause.compile linear (.app (.ident n :: (first :: more).map Parameter.term))
        e.term with
    | error err' =>
      rw [hcompile] at h
      cases h
      exact .inr (.inr (Clause.compile_error hcompile))
    | ok c =>
      rw [hcompile] at h
      cases h

/-- What each declaration keeps, loading keeps; and a failure to load is one to add a
    declaration. -/
theorem foldlM_add {good : Program → Prop} {ds : List Term}
    (hadd : ∀ d ∈ ds, ∀ p p' : Program, good p → p.add linear d = .ok p' → good p') (hp : good p) :
    (∀ p', ds.foldlM (add linear) p = .ok p' → good p') ∧
      ∀ err, ds.foldlM (add linear) p = .error err →
        ∃ d ∈ ds, ∃ p' : Program, p'.add linear d = .error err := by
  induction ds generalizing p with
  | nil =>
    refine ⟨?_, ?_⟩
    · rintro p' ⟨⟩
      exact hp
    · rintro err ⟨⟩
  | cons d ds ih =>
    rw [List.forall_mem_cons] at hadd
    rw [List.foldlM_cons]
    cases hd : p.add linear d with
    | error err =>
      refine ⟨?_, ?_⟩
      · rintro p' ⟨⟩
      · rintro err' ⟨⟩
        exact ⟨d, List.mem_cons_self, p, hd⟩
    | ok p' =>
      obtain ⟨hok, herror⟩ := ih hadd.2 (hadd.1 p p' hp hd)
      refine ⟨hok, ?_⟩
      intro err h
      obtain ⟨d', hd', hp'⟩ := herror err h
      exact ⟨d', List.mem_cons_of_mem _ hd', hp'⟩

end Program

/-! ## Parsed declarations -/

/-- A declaration of a text is a statement whose names are written in the text. -/
theorem Grammar.Source.exists_statement {d : Source} {t : Term} (h : t ∈ d.terms) :
    ∃ s : Statement, t = s.term ∧ ∀ w ∈ s.symbols, w ∈ d.symbols := by
  cases d with
  | empty n => cases h
  | of leading first more trailing =>
    rw [Source.terms, List.mem_cons, List.mem_map] at h
    rcases h with rfl | ⟨s, hs, rfl⟩
    · refine ⟨first, rfl, fun w hw => ?_⟩
      simp [Source.symbols, hw]
    · refine ⟨s.2, rfl, fun w hw => ?_⟩
      have hmem : w ∈ more.flatMap separated :=
        List.mem_flatMap.2 ⟨s, hs, List.mem_append_right _ hw⟩
      simp [Source.symbols, hmem]

theorem exists_statement_of_parseProgram {text : Text} {file : String} {ds : List Term}
    (h : parseProgram text file = .ok ds) :
    ∀ d ∈ ds, ∃ s : Statement, d = s.term ∧ ∀ n, .name n ∈ s.symbols → n ≠ "_" := by
  obtain ⟨src, hsymbols, rfl⟩ := parseProgram_iff.1 h
  intro d hd
  obtain ⟨s, rfl, hs⟩ := Source.exists_statement hd
  refine ⟨s, rfl, fun n hn => ?_⟩
  have hmem := hs _ hn
  rw [hsymbols] at hmem
  exact Text.name_ne_wildcard hmem

theorem Program.load_parsed {text : Text} {file : String} {ds : List Term} {linear : Bool}
    (h : parseProgram text file = .ok ds) :
    (∀ p, load linear ds = .ok p → p.Built (Term.Formed (· ≠ "_") 2) (· ≠ "_")) ∧
      ∀ err, load linear ds = .error err → Refuses linear err.cause := by
  have hstatement := exists_statement_of_parseProgram h
  have hempty : Program.empty.Built (Term.Formed (· ≠ "_") 2) (· ≠ "_") := by
    refine ⟨?_, ?_⟩ <;>
      · intro x hx
        cases hx
  have hadd : ∀ d ∈ ds, ∀ p p' : Program, p.Built (Term.Formed (· ≠ "_") 2) (· ≠ "_") →
      p.add linear d = .ok p' → p'.Built (Term.Formed (· ≠ "_") 2) (· ≠ "_") := by
    intro d hd p p' hp hadd
    obtain ⟨s, rfl, hs⟩ := hstatement d hd
    exact hp.add_statement hs hadd
  obtain ⟨hok, herror⟩ := foldlM_add hadd hempty
  refine ⟨hok, fun err herr => ?_⟩
  obtain ⟨d, hd, p, hp⟩ := herror err herr
  obtain ⟨s, rfl, -⟩ := hstatement d hd
  exact add_statement_error hp

/-! ## Evaluations -/

/-- A plain term: identifiers other than the wildcard, groups, and applications and arrows of at
    least two elements. -/
def Term.Plain (t : Term) : Prop := t.Formed (· ≠ "_") 2

/-- The failures that the evaluation of a plain term may end in: a call has no clause or may not be
    entered, or the head of an application is a term that is no identifier. -/
inductive Failure.Blamed : Failure → Prop where
  | fault {name : String} {stack : List Site} {cause : Cause} :
      cause ∈ [.unknownFunction, .noMatchingClause, .stepBudget, .depthBudget, .interrupted] →
      Blamed (.failed ⟨name, stack, cause⟩)
  | head {t : Term} {stack : List Site} :
      t.Plain → t.isIdent = false → Blamed (.failed ⟨t.render, stack, .malformedHead⟩)

/-- Plain terms and what may come of them. -/
def plainContents : Contents := ⟨Term.Plain, fun _ => True, Failure.Blamed⟩

theorem plainContents_kept : plainContents.Kept where
  inner := by
    rintro t (_ | ht)
    exact ht
  element := by
    rintro xs (_ | _ | ⟨_, _, hxs⟩)
    exact hxs
  subst n ht hr := ht.subst hr n
  stray := by
    rintro t stack ht (rfl | rfl) <;> cases ht
  absent ht := by
    cases ht
  call _ := trivial
  fault hcause := .fault hcause
  head ht hident := .head ht hident

/-- What running a program came to. A program whose entry does not fit is not run at all. -/
def Verdict.Plain : Verdict → Prop
  | .refused _ => True
  | .value t => t.Plain
  | .failure f => f.Blamed
  | .unfinished => True

/-- Running a program meets plain terms only. -/
structure Interpretation.Plain (run : Interpretation) : Prop where
  verdict : run.verdict.Plain
  events : ∀ e ∈ run.events, plainContents.OfEvent e

/-- An evaluation with something before it is kept within bounds if both are. -/
theorem Contents.OfEvaluation.preceded {c : Contents} {evaluation : Evaluation}
    (h : c.OfEvaluation evaluation) {events : List (Event Failure)}
    (hevents : ∀ e ∈ events, c.OfEvent e) : c.OfEvaluation (evaluation.preceded events) := by
  refine ⟨h.outcome, ?_, h.calls⟩
  intro x hx
  rcases List.mem_append.1 hx with hx | hx
  · exact hevents x hx
  · exact h.events x hx

/-- A run that starts from a term that may occur ends with an evaluation that is kept within
    bounds. -/
theorem Contents.exists_evaluation {c : Contents} (hc : c.Kept) {e : Evaluator}
    (hprogram : c.OfProgram e.program) (hcalls : ∀ x ∈ e.calls.calls, c.call x) {t : Term}
    (ht : c.term t) (rounds : Nat) :
    ∃ evaluation, c.OfEvaluation evaluation ∧
      e.interpretFrom (rounds + 2) t = evaluation.interpretation := by
  have hfirst := Contents.ofEvaluation_reduce hc hprogram hcalls ht
  rcases Evaluator.interpretFrom_eq e t rounds with hrun | ⟨v, hv, hrun⟩
  · exact ⟨_, hfirst, hrun⟩
  · -- The second round starts from what came of the first.
    have hvalue : c.term v := by
      have houtcome := hfirst.outcome
      rw [hv] at houtcome
      exact houtcome
    have hsecond := Contents.ofEvaluation_reduce (e := (e.reduce t).evaluator) hc hprogram
      hfirst.calls hvalue
    exact ⟨_, hsecond.preceded hfirst.events, hrun⟩

theorem Interpretation.Plain.of_evaluation {evaluation : Evaluation}
    (h : plainContents.OfEvaluation evaluation) : evaluation.interpretation.Plain := by
  refine ⟨?_, h.events⟩
  have houtcome := h.outcome
  unfold Evaluation.interpretation
  cases hresult : evaluation.outcome with
  | value t =>
    rw [hresult] at houtcome
    exact houtcome
  | failure f =>
    rw [hresult] at houtcome
    exact houtcome
  | unfinished => exact trivial

theorem Term.Plain.of_parsed {text : Text} {t : Term} (h : parseExpression text = .ok t) :
    t.Plain := by
  obtain ⟨e, semicolon, hsymbols, rfl⟩ := parseExpression_iff.1 h
  refine e.term_formed fun n hn => ?_
  have hmem : Symbol.name n ∈ text.dropMark.symbols := by
    rw [← hsymbols]
    exact List.mem_append_left _ hn
  exact Text.name_ne_wildcard hmem

namespace Evaluator

variable {e : Evaluator} (hprogram : e.program.Built Term.Plain (· ≠ "_"))

include hprogram

theorem plainContents_ofProgram : plainContents.OfProgram e.program := by
  intro name clauses hclauses
  exact hprogram.clauses _ (Environment.mem_entries_of_get? hclauses)

theorem reduce_plain {t : Term} (ht : t.Plain) : plainContents.OfEvaluation (e.reduce t) :=
  Contents.ofEvaluation_reduce plainContents_kept (plainContents_ofProgram hprogram)
    (fun _ _ => trivial) ht

/-- A function that a program can be run from is declared in it, so its name is no wildcard. -/
theorem entry_ne_wildcard (h : e.program.entryFault? e.config = none) :
    e.config.entryName ≠ "_" := by
  cases hget : e.program.bindings.get? e.config.entryName with
  | none =>
    rw [Program.entryFault?] at h
    simp only [hget] at h
    cases h
  | some type => exact hprogram.bindings _ (Environment.mem_entries_of_get? hget)

theorem interpretFrom_plain {t : Term} (ht : t.Plain) (rounds : Nat) :
    (interpretFrom (rounds + 2) e t).Plain := by
  obtain ⟨evaluation, hplain, hrun⟩ := Contents.exists_evaluation plainContents_kept
    (plainContents_ofProgram hprogram) (fun _ _ => trivial) ht rounds
  rw [hrun]
  exact .of_evaluation hplain

theorem interpret_plain (hseed : e.config.seedTerm.Plain) : e.interpret.Plain := by
  rw [interpret]
  split
  · refine ⟨trivial, ?_⟩
    intro x hx
    cases hx
  · rename_i hentry
    have hstart : (Term.app [.ident e.config.entryName, e.config.seedTerm]).Plain := by
      refine .seq (by decide) (Nat.le_refl 2) ?_
      rw [List.forall_mem_cons, List.forall_mem_singleton]
      exact ⟨.ident (entry_ne_wildcard hprogram hentry), hseed⟩
    exact interpretFrom_plain hprogram hstart e.config.patience

end Evaluator

/-- The front end and the evaluator agree on what is well formed. A program that was parsed is
    refused only for a name that is declared twice or, if it has to be linear, for a variable that
    is repeated; and whatever is evaluated in it or run from it, however the budgets and the
    interrupt are set, meets plain terms only and fails in one of six ways. -/
theorem parsed_stays_well_formed {text : Text} {file : String} {ds : List Term}
    (hparse : parseProgram text file = .ok ds) (config : Config) :
    (∀ err, Program.load config.linear ds = .error err →
        Program.Refuses config.linear err.cause) ∧
      ∀ e : Evaluator, Program.load config.linear ds = .ok e.program →
        (∀ (expr : Text) (t : Term), parseExpression expr = .ok t →
          plainContents.OfEvaluation (e.reduce t)) ∧
        ((e.config.seed = .hole ∨ ∃ expr, parseExpression expr = .ok e.config.seed) →
          e.interpret.Plain) := by
  obtain ⟨hok, herror⟩ := Program.load_parsed hparse
  refine ⟨herror, fun e hload => ⟨fun expr t ht => ?_, fun hseed => ?_⟩⟩
  · exact Evaluator.reduce_plain (hok _ hload) (.of_parsed ht)
  · refine Evaluator.interpret_plain (hok _ hload) ?_
    rw [Config.seedTerm]
    split
    · exact .ident (by decide)
    · rename_i hne
      rcases hseed with hhole | ⟨expr, hexpr⟩
      · exact absurd hhole hne
      · exact .of_parsed hexpr

/-- What is loaded from the text `> f X = X`. -/
def identityProgram : Program :=
  ⟨.empty, ⟨[("f", [⟨"f", [.var "X"], .ident "X", [.ident "f", .ident "X"]⟩])]⟩, .empty, []⟩

theorem parsed_stays_well_formed_identity :
    plainContents.OfEvaluation
      ((Evaluator.new identityProgram .bare .quiet).reduce (.app [.ident "f", .ident "a"])) := by
  have hf : Lexical "f" := .of_word rfl rfl rfl rfl
  have hx : Lexical "X" := .of_word rfl rfl rfl rfl
  have ha : Lexical "a" := .of_word rfl rfl rfl rfl
  have hpattern := (hf.spelled.append_separator separator_blank).append_spelled hx.spelled
  have hclause : Spelled "> f X = X"
      [.mark .rule, .name "f", .name "X", .mark .assign, .name "X"] := by
    rw [show "> f X = X" = "> " ++ ("f" ++ " " ++ "X" ++ " = " ++ "X") from rfl]
    exact gap_rule.append_spelled
      ((hpattern.append_separator separator_assign).append_spelled hx.spelled)
  have hcall : Spelled "f a" [.name "f", .name "a"] := by
    rw [show "f a" = "f" ++ " " ++ "a" from rfl]
    exact (hf.spelled.append_separator separator_blank).append_spelled ha.spelled
  have hprogram : parseProgram (Text.ofString "> f X = X") ""
      = .ok [.define (.app [.ident "f", .ident "X"]) (.ident "X")] := by
    refine parseProgram_iff.2
      ⟨.of 0 (.clause "f" (.name "X") [] (.of (.of (.name "X") []) [])) [] 0, ?_, rfl⟩
    rw [Text.dropMark_eq (by rw [hclause.symbols_eq]; decide), hclause.symbols_eq]
    rfl
  have hexpression : parseExpression (Text.ofString "f a")
      = .ok (.app [.ident "f", .ident "a"]) := by
    refine parseExpression_iff.2 ⟨.of (.of (.name "f") [.name "a"]) [], false, ?_, rfl⟩
    rw [Text.dropMark_eq (by rw [hcall.symbols_eq]; decide), hcall.symbols_eq]
    rfl
  exact ((parsed_stays_well_formed hprogram .bare).2 (.new identityProgram .bare .quiet) rfl).1
    _ _ hexpression

end Clausal
