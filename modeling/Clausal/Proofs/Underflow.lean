/-
  Clausal.Proofs.Underflow

  Nothing is taken off the parser's stack that was not put there for it, whatever earlier calls have
  left below.

    * `Parser.Action.Ready`: the stack has what an action takes. That is finished terms, so many as
      it wants; or, for an action that ends a declaration, finished terms above the marker with
      which the declaration was begun.
    * `Parser.Keeps`: how many finished terms a plan needs and leaves (`Yields`), and that its
      actions are ready when it comes to them; put together as plans are.
    * `Parser.Plan.run_error`: a plan whose actions are ready gives up at a token or not at all.
    * `Parser.stack_never_underflows`: so it is for all that a parser is asked for.
-/
import Clausal.Proofs.Plans
import Clausal.Proofs.Positions

namespace Clausal.Parser

open Grammar

/-! ## Ready actions -/

/-- So many terms are on top of a stack, and none of them is a mark. -/
def Operands (n : Nat) (stack : List Term) : Prop :=
  ∃ top rest, stack = top ++ rest ∧ top.length = n ∧ ∀ t ∈ top, Finished t

/-- The topmost marker of a stack was put on `below`, and above it are so many terms at least, in
    the order in which they were pushed, and no mark. -/
def Marked (least : Nat) (below stack : List Term) : Prop :=
  ∃ list, stack = list.reverse ++ .marker :: below ∧ sinceMarker [] stack = some (list, below) ∧
    least ≤ list.length ∧ ∀ t ∈ list, Finished t

/-- A stack has what an action takes off it. -/
def Action.Ready : Action → List Term → Prop
  | .compose => Operands 2
  | .chain => Operands 2
  | .enclose => Operands 1
  | .finishConstructor => Operands 1
  | .finishSignature => Operands 2
  | .finishType below => Marked 1 below
  | .finishClause below => Marked 3 below

theorem Operands.exists_one {stack : List Term} (h : Operands 1 stack) :
    ∃ t rest, stack = t :: rest := by
  obtain ⟨top, rest, rfl, hlength, -⟩ := h
  obtain ⟨t, rfl⟩ := List.length_eq_one_iff.1 hlength
  exact ⟨t, rest, rfl⟩

theorem Operands.exists_two {stack : List Term} (h : Operands 2 stack) :
    ∃ last first rest, stack = last :: first :: rest := by
  obtain ⟨top, rest, rfl, hlength, -⟩ := h
  obtain ⟨last, first, rfl⟩ := List.length_eq_two.1 hlength
  exact ⟨last, first, rest, rfl⟩

theorem Marked.of_eq {least : Nat} {below ts stack : List Term}
    (hstack : stack = ts ++ .marker :: below) (hfinished : ∀ t ∈ ts, Finished t)
    (hleast : least ≤ ts.length) : Marked least below stack := by
  refine ⟨ts.reverse, ?_, ?_, by rwa [List.length_reverse], ?_⟩
  · rw [hstack, List.reverse_reverse]
  · rw [hstack, sinceMarker_eq hfinished, List.append_nil]
  · exact fun t ht => hfinished t (List.mem_reverse.1 ht)

/-- An action that is ready is carried out. -/
theorem Action.Ready.run_eq_ok {a : Action} {p : Parser} (h : a.Ready p.stack) :
    ∃ q, a.run p = .ok q := by
  cases a with
  | compose =>
    obtain ⟨last, first, rest, hstack⟩ := Operands.exists_two h
    exact ⟨_, compose_eq hstack⟩
  | chain =>
    obtain ⟨last, first, rest, hstack⟩ := Operands.exists_two h
    exact ⟨_, chain_eq hstack⟩
  | enclose =>
    obtain ⟨t, rest, hstack⟩ := Operands.exists_one h
    simp only [run, Parser.enclose, hstack]
    exact ⟨_, rfl⟩
  | finishConstructor =>
    obtain ⟨t, rest, hstack⟩ := Operands.exists_one h
    simp only [run, Parser.finishConstructor, hstack]
    split
    · exact ⟨_, rfl⟩
    · exact ⟨_, rfl⟩
    · cases ‹t :: rest = []›
  | finishSignature =>
    obtain ⟨type, name, rest, hstack⟩ := Operands.exists_two h
    simp only [run, Parser.finishSignature, hstack]
    split
    · exact ⟨_, rfl⟩
    · exact ⟨_, rfl⟩
    · rename_i hnone
      exact absurd rfl (hnone _ _ _)
  | finishType below =>
    obtain ⟨list, -, hsince, hleast, -⟩ := h
    obtain ⟨t, list, rfl⟩ := List.exists_cons_of_length_pos hleast
    simp only [run, Parser.finishType, hsince]
    exact ⟨_, rfl⟩
  | finishClause below =>
    obtain ⟨list, -, hsince, hleast, -⟩ := h
    -- The last of the terms is the body, and there is a name before it.
    have hpos : 0 < list.length := by omega
    have hfront : 0 < list.dropLast.length := by
      rw [List.length_dropLast]
      omega
    have hbody := List.getLast?_eq_some_getLast (List.ne_nil_of_length_pos hpos)
    obtain ⟨name, params, hparams⟩ := List.exists_cons_of_length_pos hfront
    simp only [run, Parser.finishClause, hsince, hparams, hbody]
    exact ⟨_, rfl⟩

namespace Plan

/-- All actions that a plan comes to are ready. -/
def Ready (x : Plan) (p : Parser) : Prop := ∀ v ∈ x.visits p, v.1.Ready v.2

/-- A plan whose actions are ready gives up at the current token only. -/
theorem run_error {x : Plan} {p : Parser} {f : Failure} (h : x.Ready p)
    (hrun : x.run p = .error f) : f.error.problem = .unexpected f.left.current ∨
      f.error.problem = .clauseWithoutParameters := by
  -- Only an action could fail in another way, and the plan comes to none that is not ready.
  induction x generalizing p with
  | done => cases hrun
  | unexpected =>
    cases hrun
    exact .inl rfl
  | withoutParameters =>
    cases hrun
    exact .inr rfl
  | advance => cases hrun
  | push t => cases hrun
  | act a =>
    obtain ⟨q, hq⟩ := (h (a, p.stack) (List.mem_singleton_self _)).run_eq_ok
    rw [run, hq] at hrun
    cases hrun
  | andThen x y hx hy =>
    have hfirst : x.Ready p := fun v hv => h v (List.mem_append_left _ hv)
    rcases bind_eq_error_iff.1 hrun with hrun | ⟨m, hm, hrun⟩
    · exact hx hfirst hrun
    · refine hy (fun v hv => h v (List.mem_append_right _ ?_)) hrun
      rw [hm]
      exact hv
  | choose way ih => exact ih p h hrun

/-- A plan that comes to no action has none that is not ready. -/
theorem Ready.of_nil {x : Plan} {p : Parser} (h : x.visits p = []) : x.Ready p := by
  rw [Ready, h]
  exact fun v hv => absurd hv List.not_mem_nil

theorem ready_act {a : Action} {p : Parser} (h : a.Ready p.stack) : (act a).Ready p :=
  List.forall_mem_singleton.2 h

theorem Ready.andThen {x y : Plan} {p : Parser} (hx : x.Ready p)
    (hy : ∀ q, x.run p = .ok q → y.Ready q) : (x.andThen y).Ready p := by
  refine List.forall_mem_append.2 ⟨hx, ?_⟩
  cases hrun : x.run p with
  | ok q => exact hy q hrun
  | error f => exact fun v hv => absurd hv List.not_mem_nil

theorem Ready.branch {test : Parser → Bool} {x y : Plan} {p : Parser}
    (hx : test p = true → x.Ready p) (hy : ¬ test p = true → y.Ready p) :
    (branch test x y).Ready p := by
  rw [Ready, Plan.branch, visits]
  split
  · exact hx ‹_›
  · exact hy ‹_›

end Plan

/-! ## Keeping actions ready -/

/-- From `k` finished terms a plan comes to `j` of them, or fails and leaves a part; and its actions
    are ready all the way. -/
structure Keeps (pre : Parser → Prop) (k : Nat) (x : Plan) (j : Nat) : Prop where
  yields : Yields pre k x.run j
  ready : ∀ {start p : Parser}, start.Owns k p → pre p → x.Ready p

namespace Keeps

variable {pre : Parser → Prop} {i j k : Nat} {x y : Plan}

theorem under (h : Keeps always k x j) : Keeps pre k x j where
  yields := h.yields.under
  ready hp _ := h.ready hp trivial

theorem weaken (h : Keeps pre k x j) (hi : i ≤ j) : Keeps pre k x i where
  yields := h.yields.weaken hi
  ready := h.ready

/-- A plan without actions. -/
theorem of_visits {step : Step} (hrun : x.run = step) (h : Yields pre k step j)
    (hvisits : ∀ p, x.visits p = []) : Keeps pre k x j where
  yields := hrun ▸ h
  ready {_ p} _ _ := .of_nil (hvisits p)

theorem done : Keeps pre k .done k := of_visits Plan.run_done .ok fun _ => rfl

theorem unexpected : Keeps pre k .unexpected j :=
  of_visits Plan.run_unexpected .unexpected fun _ => rfl

theorem act {a : Action} (h : Yields always k a.run j)
    (hready : ∀ {start p : Parser}, start.Owns k p → a.Ready p.stack) :
    Keeps always k (.act a) j where
  yields := h
  ready hp _ := Plan.ready_act (hready hp)

theorem andThen (h : Keeps pre k x j) (h' : Keeps always j y i) : Keeps pre k (x.andThen y) i where
  yields := Plan.run_andThen rfl rfl ▸ h.yields.bind h'.yields
  ready hp hpre := (h.ready hp hpre).andThen fun _ hq => h'.ready (h.yields.done hp hpre hq) trivial

/-- A plan behind a token that is gone past. -/
theorem advance (h : Keeps always j x i)
    (hadvance : ∀ {start p : Parser}, start.Owns k p → pre p → start.Owns j p.advance) :
    Keeps pre k (.andThen .advance x) i where
  yields := Plan.run_advance_andThen rfl ▸ h.yields.after Parser.advance hadvance
  ready hp hpre := h.ready (hadvance hp hpre) trivial

/-- A plan behind a token for which a mark is put on the stack. -/
theorem begin {t : Term} (h : Keeps always j x i)
    (hbegin : ∀ {start p : Parser}, start.Owns k p → pre p → start.Owns j (p.advance.push t)) :
    Keeps pre k (.andThen .advance (.andThen (.push fun _ => t) x)) i where
  yields := by
    rw [Plan.run_advance_andThen (Plan.run_push_andThen (fun _ => t) rfl)]
    exact h.yields.after (fun p => p.advance.push t) hbegin
  ready hp hpre := h.ready (hbegin hp hpre) trivial

theorem branch (test : Parser → Bool) (h : Keeps (fun p => test p = true) k x j)
    (h' : Keeps pre k y j) : Keeps pre k (.branch test x y) j where
  yields := Plan.run_branch test rfl rfl ▸ .ite test h.yields h'.yields
  ready hp hpre := .branch (fun htest => h.ready hp htest) fun _ => h'.ready hp hpre

theorem many {test : Parser → Bool} (h : Keeps (fun p => test p = true) k x k) :
    Keeps always k (.many test x) k := by
  -- Each round leaves as many terms as it found, so it does not matter how many rounds there are.
  have hrounds (n : Nat) : Keeps always k (.repeatAtMost test x n) k := by
    induction n with
    | zero => exact .done
    | succ n ih => exact .branch test (h.andThen ih) .done
  exact ⟨Plan.run_many test rfl ▸ h.yields.many, fun {_ p} hp hpre =>
    (hrounds p.tokens.length).ready hp hpre⟩

end Keeps

variable {k : Nat}

theorem Owns.operands {start p : Parser} {n : Nat} (h : start.Owns (k + n) p) :
    Operands n p.stack := by
  obtain ⟨x, own, rest, hreads, hterms, hlength, hown⟩ := h.part
  refine ⟨own.take n, own.drop n ++ rest ++ start.stack, ?_, ?_, ?_⟩
  · rw [hreads.stack_eq, hterms, ← List.append_assoc, ← List.append_assoc, List.take_append_drop]
  · rw [List.length_take, hlength]
    omega
  · exact fun t ht => hown t (List.mem_of_mem_take ht)

theorem identifier_keeps : Keeps always k .identifier (k + 1) := by
  refine .of_visits Plan.run_identifier identifier_yields fun p => ?_
  rw [Plan.identifier, Plan.branch, Plan.visits]
  split <;> rfl

theorem expect_keeps (kind : Token.Kind) (hkind : marks kind = true)
    (hidle : Symbol.isIdle (.mark kind) = false) : Keeps always (k + 1) (.expect kind) (k + 1) := by
  refine .of_visits (Plan.run_expect kind) (expect_yields kind hkind hidle) fun p => ?_
  rw [Plan.expect, Plan.branch, Plan.visits]
  split <;> rfl

theorem compose_keeps : Keeps always (k + 2) (.act .compose) (k + 1) :=
  .act compose_yields Owns.operands

theorem chain_keeps : Keeps always (k + 2) (.act .chain) (k + 1) :=
  .act chain_yields Owns.operands

theorem enclose_keeps : Keeps always (k + 1) (.act .enclose) (k + 1) :=
  .act enclose_yields Owns.operands

theorem finishConstructor_keeps : Keeps always (k + 1) (.act .finishConstructor) (k + 1) :=
  .act finishConstructor_yields Owns.operands

/-! ## Expressions -/

section

variable {inner : Plan} (hinner : ∀ k, Keeps always k inner (k + 1))

include hinner

theorem factorWith_keeps : Keeps always k (.factorWith inner) (k + 1) := by
  have hparen := (hinner k).andThen ((expect_keeps .rparen rfl rfl).andThen enclose_keeps)
  exact .branch (is .ident) identifier_keeps.under
    (.branch (is .lparen) (hparen.advance Owns.open_paren) .unexpected)

theorem factorsWith_keeps : Keeps always (k + 1) (.factorsWith inner) (k + 1) :=
  ((factorWith_keeps hinner).andThen compose_keeps).under.many

theorem termWith_keeps : Keeps always k (.termWith inner) (k + 1) :=
  (factorWith_keeps hinner).andThen (factorsWith_keeps hinner)

theorem expressionWith_keeps : Keeps always k (.expressionWith inner) (k + 1) := by
  have hnext : Keeps (fun p => p.is .arrow = true) (k + 1)
      (.andThen .advance ((Plan.termWith inner).andThen (.act .chain))) (k + 1) :=
    ((termWith_keeps hinner).andThen chain_keeps).advance (Owns.pass_mark rfl rfl)
  exact (termWith_keeps hinner).andThen hnext.many

end

theorem expressionWithin_keeps (n : Nat) :
    ∀ k, Keeps always k (.expressionWithin n) (k + 1) := by
  induction n with
  | zero => exact fun k => .unexpected
  | succ n ih => exact fun k => expressionWith_keeps ih

theorem expression_keeps : Keeps always k .expression (k + 1) where
  yields := Plan.run_expression ▸ expression_yields
  ready {_ p} hp hpre := (expressionWithin_keeps p.tokens.length k).ready hp hpre

/-! ## Parts of statements -/

theorem constructor_keeps : Keeps always k .constructor (k + 1) :=
  identifier_keeps.andThen
    ((factorsWith_keeps fun _ => expression_keeps).andThen finishConstructor_keeps)

theorem constructors_keeps :
    Keeps (fun p => p.is .assign = true) (k + 1) .constructors (k + 1) := by
  have hone : Keeps always (k + 1) .constructor (k + 1) := constructor_keeps.weaken (Nat.le_succ _)
  have hmore :
      Keeps (fun p => p.is .pipe = true) (k + 1) (.andThen .advance .constructor) (k + 1) :=
    hone.advance (Owns.pass_mark rfl rfl)
  exact (hone.andThen hmore.many).advance (Owns.pass_mark rfl rfl)

theorem typeParts_keeps :
    Keeps (fun p => p.symbols.head? = some (.keyword "decltype")) 0 .typeParts 1 := by
  have hparam : Keeps (fun p => p.is .ident = true) 1 .identifier 1 :=
    (identifier_keeps.weaken (Nat.le_succ 1)).under
  have hrest : Keeps always 0 _ 1 := identifier_keeps.andThen
    (hparam.many.andThen (.branch (is .assign) constructors_keeps .done))
  exact hrest.begin (Owns.begin rfl rfl (by decide))

theorem signatureParts_keeps : Keeps always k .signatureParts (k + 2) :=
  identifier_keeps.andThen ((expect_keeps .colon rfl rfl).andThen expression_keeps)

theorem parameter_keeps : Keeps always k .parameter (k + 1) := by
  have hwildcard : Keeps (fun p => p.is .wildcard = true) k
      (.andThen (.push fun _ => .ident "_") .advance) (k + 1) :=
    .of_visits (Plan.run_push_andThen _ rfl) wildcard_yields fun _ => rfl
  have hparen := (expression_keeps (k := k)).andThen (expect_keeps .rparen rfl rfl)
  exact .branch (is .wildcard) hwildcard (.branch (is .ident) identifier_keeps.under
    (.branch (is .lparen) (hparen.advance Owns.open_paren) .unexpected))

theorem clauseBody_keeps : Keeps always (k + 1) .clauseBody (k + 2) := by
  have hparam : Keeps (fun p => (!p.endsParameters) = true) (k + 1) .parameter (k + 1) :=
    (parameter_keeps.weaken (Nat.le_succ _)).under
  have hnone : Keeps (fun p => p.endsParameters = true) (k + 1) .withoutParameters (k + 2) :=
    .of_visits rfl (.fail _) fun _ => rfl
  exact .branch endsParameters hnone
    (hparam.many.andThen ((expect_keeps .assign rfl rfl).andThen expression_keeps))

theorem clauseParts_keeps : Keeps (fun p => p.is .rule = true) 0 .clauseParts 2 := by
  have hrest : Keeps always 0 _ 2 := identifier_keeps.andThen clauseBody_keeps
  exact hrest.begin fun hp his =>
    hp.begin rfl rfl (by decide) ((is_mark_iff hp.sound (by decide)).1 his)

/-! ## Statements -/

variable {p q : Parser}

theorem signature_ready {start : Parser} (hp : start.Owns k p) : Plan.signature.Ready p :=
  (signatureParts_keeps.ready hp trivial).andThen fun _ hq =>
    Plan.ready_act (signatureParts_keeps.yields.done hp trivial hq).operands

/-- A type finds its own marker, and its name at least above it. -/
theorem typeDeclaration_ready (hp : p.Sound)
    (hhead : p.symbols.head? = some (.keyword "decltype")) : Plan.typeDeclaration.Ready p := by
  refine (typeParts_keeps.ready (.refl hp) hhead).andThen fun q hq => Plan.ready_act ?_
  rw [Plan.run_typeParts] at hq
  obtain ⟨⟨⟨n, params⟩, cs⟩, hreads⟩ := typeParts_obeys.sound hp hhead hq
  obtain ⟨ts, hstack, hfinished, hts⟩ := exists_typeStack n params cs p.stack
  refine .of_eq (hreads.stack_eq.trans hstack) hfinished ?_
  rw [← List.length_reverse, hts, List.length_cons]
  exact Nat.le_add_left 1 _

/-- A clause finds its own marker, and above it its name, a parameter and the body at least. -/
theorem clause_ready (hp : p.Sound) (hrule : p.is .rule = true) : Plan.clause.Ready p := by
  refine (clauseParts_keeps.ready (.refl hp) hrule).andThen fun q hq => Plan.ready_act ?_
  rw [Plan.run_clauseParts] at hq
  obtain ⟨⟨n, ⟨first, more⟩, body⟩, hreads⟩ := clauseParts_obeys.sound hp hrule hq
  obtain ⟨ts, hstack, hfinished, hts⟩ := exists_clauseStack n (first :: more) body p.stack
  refine .of_eq (hreads.stack_eq.trans hstack) hfinished ?_
  rw [← List.length_reverse, hts]
  simp

theorem statement_ready (hp : p.Sound) : Plan.statement.Ready p := by
  have howns := Owns.refl hp
  refine .branch (fun hkeyword => .branch (fun hname => ?_) fun _ =>
      .branch (fun hname => ?_) fun _ => .of_nil rfl)
    fun _ => .branch (clause_ready hp) fun _ =>
      .branch (fun _ => signature_ready howns) fun _ => .of_nil rfl
  · exact typeDeclaration_ready hp
      ((head?_eq_keyword_iff hp).2 ⟨hkeyword, of_decide_eq_true hname⟩)
  · -- The signature finds its operands above the mark that is put on the stack for it.
    have hhead := (head?_eq_keyword_iff hp).2 ⟨hkeyword, of_decide_eq_true hname⟩
    have hbegin := howns.begin (t := .builtinMarker) rfl rfl (by simp) hhead
    exact Plan.Ready.branch (p := p.advance.push .builtinMarker)
      (fun _ => signature_ready hbegin) fun _ => .of_nil rfl

theorem statements_ready (n : Nat) (hp : p.Sound) : (Plan.statements n).Ready p := by
  induction n generalizing p with
  | zero => exact .of_nil rfl
  | succ n ih =>
    refine .branch (fun _ => .of_nil rfl) fun _ => .branch (fun _ => ih hp.advance) fun _ => ?_
    -- Behind a statement the parser is sound again, whatever the statement has left on the stack.
    refine (statement_ready hp).andThen fun q hq => .branch (fun _ => .of_nil rfl) fun _ => ?_
    rw [Plan.run_statement] at hq
    obtain ⟨s, hs⟩ := statement_reads hp hq
    have hexpect : (Plan.expect .semicolon).Ready q :=
      .branch (fun _ => .of_nil rfl) fun _ => .of_nil rfl
    refine hexpect.andThen fun r hr => ?_
    rw [Plan.run_expect] at hr
    obtain ⟨-, hreads⟩ := (expect_obeys .semicolon (by decide)).sound (hs.sound hp) trivial hr
    exact ih (hreads.sound (hs.sound hp))

theorem wholeExpression_ready (hp : p.Sound) : Plan.wholeExpression.Ready p := by
  refine (expression_keeps.ready (.refl hp) trivial).andThen fun q _ => ?_
  -- Behind the expression nothing is done to the stack.
  have hskip : (Plan.branch (is .semicolon) .advance .done).Ready q :=
    .branch (fun _ => .of_nil rfl) fun _ => .of_nil rfl
  exact hskip.andThen fun r _ => .branch (fun _ => .of_nil rfl) fun _ => .of_nil rfl

/-! ## Requests -/

/-- What is read for a request, before it is taken off the stack. -/
def Request.step : Request → Step
  | .program => fun p => statements p.tokens.length p
  | .expression => wholeExpression

def Request.plan : Request → Plan
  | .program => .choose fun p => .statements p.tokens.length
  | .expression => .wholeExpression

theorem Request.run_plan (request : Request) : request.plan.run = request.step := by
  cases request with
  | program =>
    funext p
    exact congrFun (Plan.run_statements _) p
  | expression => exact Plan.run_wholeExpression

theorem Request.plan_ready (request : Request) (hp : p.Sound) : request.plan.Ready p := by
  cases request with
  | program => exact statements_ready _ hp
  | expression => exact wholeExpression_ready hp

theorem refusal?_of_error {request : Request} {f : Failure} (h : request.step p = .error f) :
    p.refusal? request = some f.error := by
  cases request with
  | program =>
    rw [refusal?, readProgram, show statements p.tokens.length p = .error f from h]
    rfl
  | expression =>
    rw [refusal?, readExpression, show p.wholeExpression = .error f from h]
    rfl

/-- What is read is taken off for either request, even where one expression is wanted. -/
theorem serve_of_ok {request : Request} (h : request.step p = .ok q) :
    p.serve request = q.collect.2 := by
  cases request with
  | program => rw [serve, readProgram, show statements p.tokens.length p = .ok q from h]
  | expression =>
    rw [serve, readExpression, show p.wholeExpression = .ok q from h]
    simp only
    split <;> rename_i hcollect <;> rw [hcollect]

theorem refusal?_of_mark {request : Request} (h : request.step p = .ok q)
    (hmark : q.stack.any isMark = true) : p.refusal? request = some (q.errorAt .unbalanced) := by
  have hcollect : q.collect = (.error (q.errorAt .unbalanced), q) := if_pos hmark
  cases request with
  | program =>
    rw [refusal?, readProgram, show statements p.tokens.length p = .ok q from h]
    exact congrArg (fun answer => errorOf? answer.1) hcollect
  | expression =>
    rw [refusal?, readExpression, show p.wholeExpression = .ok q from h]
    simp only [hcollect, errorOf?]

/-- Without a mark, only the number of expressions can be wrong. -/
theorem refusal?_of_no_mark {request : Request} {e : SyntaxError} (h : request.step p = .ok q)
    (hmark : ¬ q.stack.any isMark = true) (he : p.refusal? request = some e) :
    request = .expression ∧ e.problem = .expressionCount q.stack.length ∧ q.stack.length ≠ 1 := by
  have hcollect : q.collect = (.ok q.stack.reverse, { q with stack := [] }) := if_neg hmark
  cases request with
  | program =>
    rw [refusal?, readProgram, show statements p.tokens.length p = .ok q from h] at he
    simp only [hcollect] at he
    cases he
  | expression =>
    rw [refusal?, readExpression, show p.wholeExpression = .ok q from h] at he
    rw [← List.length_reverse]
    rcases hlist : q.stack.reverse with _ | ⟨t, _ | ⟨u, rest⟩⟩ <;>
      simp only [hcollect, hlist] at he <;> cases he
    · exact ⟨rfl, rfl, by simp⟩
    · exact ⟨rfl, rfl, by simp⟩

/-- A request is refused where its step fails, or for what is on the stack at its end: because there
    is a mark, or because there is not the one expression that is wanted. -/
theorem refusal?_cases {request : Request} {e : SyntaxError} (h : p.refusal? request = some e) :
    (∃ f, request.step p = .error f ∧ e = f.error) ∨
      ∃ q, request.step p = .ok q ∧
        (e.problem = .unbalanced ∧ q.stack.any isMark = true ∨
          request = .expression ∧ e.problem = .expressionCount q.stack.length ∧
            q.stack.length ≠ 1) := by
  cases hstep : request.step p with
  | error f =>
    rw [refusal?_of_error hstep] at h
    exact .inl ⟨f, rfl, (Option.some.inj h).symm⟩
  | ok q =>
    refine .inr ⟨q, rfl, ?_⟩
    by_cases hmark : q.stack.any isMark = true
    · rw [refusal?_of_mark hstep hmark] at h
      cases h
      exact .inl ⟨rfl, hmark⟩
    · exact .inr (refusal?_of_no_mark hstep hmark h)

/-- Requests that are met, each of them. -/
def Met (p : Parser) : List Request → Prop
  | [] => True
  | request :: rest => p.refusal? request = none ∧ (p.serve request).Met rest

/-- A request that is met leaves nothing on the stack. -/
theorem serve_stack {request : Request} (h : p.refusal? request = none) :
    (p.serve request).stack = [] := by
  cases hstep : request.step p with
  | error f =>
    rw [refusal?_of_error hstep] at h
    cases h
  | ok q =>
    rw [serve_of_ok hstep, collect, if_neg]
    intro hmark
    rw [refusal?_of_mark hstep hmark] at h
    cases h

theorem Met.after_stack {requests : List Request} (hp : p.stack = []) (h : p.Met requests) :
    (p.after requests).stack = [] := by
  induction requests generalizing p with
  | nil => exact hp
  | cons request rest ih => exact ih (serve_stack h.1) h.2

/-- With nothing below, what is read has finished terms only, and a single one for an expression. -/
theorem step_finished {request : Request} (hp : p.Sound) (hstack : p.stack = [])
    (h : request.step p = .ok q) :
    (∀ t ∈ q.stack, Finished t) ∧ (request = .expression → q.stack.length = 1) := by
  cases request with
  | program =>
    have hmarker : p.stack.head? ≠ some .builtinMarker := by simp [hstack]
    obtain ⟨d, hd⟩ := statements_sound hp hmarker (Nat.le_refl _) h
    refine ⟨fun t ht => ?_, by simp⟩
    rw [hd.reads.stack_eq, hstack, List.append_nil, List.mem_reverse] at ht
    exact Source.terms_finished d t ht
  | expression =>
    obtain ⟨e, semicolon, hreads, -⟩ := (wholeExpression_iff hp).1 h
    rw [hreads.stack_eq, hstack, List.forall_mem_singleton]
    exact ⟨Expression.finished e, fun _ => rfl⟩

/-- **The stack never underflows.** Let a parser of any text be asked for anything, whether or not
    it was refused what it was asked for before. Its plan is carried out as the parser's own steps
    are, and every action that the plan comes to finds on the stack what it takes off: finished
    terms and no mark, two for a composition, an arrow or a signature and one for a group or a
    constructor; or the marker that was put on the stack with which the declaration began, with a
    term at least above it for a type and three for a clause. So a step fails at a token or for want
    of parameters only, and no request is refused for an empty stack. If nothing was refused before,
    then no request is refused for a mark on the stack or for the number of expressions there
    either. -/
theorem stack_never_underflows (t : Text) (file : String) (requests : List Request)
    (request : Request) :
    let p := (Parser.ofText t file).after requests
    request.plan.run p = request.step p ∧
      (∀ v ∈ request.plan.visits p, v.1.Ready v.2) ∧
      (∀ f, request.step p = .error f → f.error.problem = .unexpected f.left.current ∨
        f.error.problem = .clauseWithoutParameters) ∧
      (∀ e, p.refusal? request = some e → e.problem ≠ .emptyStack) ∧
      ((Parser.ofText t file).Met requests → ∀ e, p.refusal? request = some e →
        e.problem ≠ .unbalanced ∧ ∀ n, e.problem ≠ .expressionCount n) := by
  intro p
  have hp : p.Sound := ((known_ofText t file).after requests).sound
  have hready := request.plan_ready hp
  have hfails : ∀ f, request.step p = .error f → f.error.problem = .unexpected f.left.current ∨
      f.error.problem = .clauseWithoutParameters := by
    intro f hf
    rw [← request.run_plan] at hf
    exact Plan.run_error hready hf
  refine ⟨congrFun request.run_plan p, hready, hfails, fun e he => ?_, fun hmet e he => ?_⟩
  · rcases refusal?_cases he with ⟨f, hf, rfl⟩ | ⟨q, -, ⟨hproblem, -⟩ | ⟨-, hproblem, -⟩⟩
    · rcases hfails f hf with hproblem | hproblem <;> simp [hproblem]
    · simp [hproblem]
    · simp [hproblem]
  · rcases refusal?_cases he with ⟨f, hf, rfl⟩ | ⟨q, hq, hleft⟩
    · rcases hfails f hf with hproblem | hproblem <;> simp [hproblem]
    · -- Nothing was left below, so there is nothing to complain about in the end.
      obtain ⟨hfinished, hone⟩ := step_finished hp (hmet.after_stack rfl) hq
      rcases hleft with ⟨-, hmark⟩ | ⟨hexpression, -, hcount⟩
      · obtain ⟨u, hu, hmark⟩ := List.any_eq_true.1 hmark
        rw [hfinished u hu] at hmark
        cases hmark
      · exact absurd (hone hexpression) hcount

/-- A clause that is given up in its first parameter, and another one behind it. -/
def abandonedText : Text := Text.ofString "> f ( ; > g X = a b"

def signatureText : Text := Text.ofString "f : t"

/-- The second clause is finished above what the first one has left, which is refused in the end.
    Behind a signature that was read to the end, an expression is refused for want of a token. -/
theorem stack_never_underflows_abandoned :
    let p := (Parser.ofText abandonedText "").after [.program]
    let below := [.ident "f", .marker]
    let q := (Parser.ofText signatureText "").after [.program]
    p.stack = below ∧
      Request.program.plan.visits p =
        [(.compose, [.ident "b", .ident "a", .ident "X", .ident "g", .marker] ++ below),
          (.finishClause below,
            [.app [.ident "a", .ident "b"], .ident "X", .ident "g", .marker] ++ below)] ∧
      (∀ v ∈ Request.program.plan.visits p, v.1.Ready v.2) ∧
      (p.refusal? .program).map SyntaxError.problem = some .unbalanced ∧
      (Parser.ofText signatureText "").Met [.program] ∧
      ∃ f, Request.expression.step q = .error f ∧ q.refusal? .expression = some f.error ∧
        (f.error.problem = .unexpected f.left.current ∨
          f.error.problem = .clauseWithoutParameters) ∧
        f.error.problem ≠ .emptyStack ∧ f.error.problem ≠ .unbalanced := by
  obtain ⟨-, hready, -⟩ := stack_never_underflows abandonedText "" [.program] .program
  obtain ⟨-, -, hfails, hnone, hclean⟩ :=
    stack_never_underflows signatureText "" [.program] .expression
  have hmet : (Parser.ofText signatureText "").Met [.program] :=
    ⟨Option.isNone_iff_eq_none.1 (by decide +kernel), trivial⟩
  obtain ⟨f, hf⟩ : ∃ f, Request.expression.step
      ((Parser.ofText signatureText "").after [.program]) = .error f := by
    have hfailed : (Request.expression.step
        ((Parser.ofText signatureText "").after [.program])).isOk = false := by decide +kernel
    cases hstep : Request.expression.step ((Parser.ofText signatureText "").after [.program]) with
    | ok r =>
      rw [hstep] at hfailed
      cases hfailed
    | error f => exact ⟨f, rfl⟩
  have hrefused := refusal?_of_error hf
  exact ⟨by decide +kernel, by decide +kernel, hready, by decide +kernel, hmet, f, hf, hrefused,
    hfails f hf, hnone _ hrefused, (hclean hmet _ hrefused).1⟩

end Clausal.Parser
