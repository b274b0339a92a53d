/-
  Clausal.Proofs.Heads

  Values that show their constructor. An application is a value if its head evaluates to a
  constructor without clauses, but the value keeps the head as it was written. It shows the
  constructor, and matches the literals that it is meant to match, exactly if its head is a name,
  parentheses apart (`Program.showsConstructor_iff`, `Pattern.admits_alike_iff`).

  Where clauses apply nothing but names and variables, a variable in front of arguments has a value
  put in its place, and a value is a name or no head at all (`Program.eachHead_replace`). Evaluation
  keeps this (`Program.Evaluates.eachHead`), so every value of such a program shows its constructor.
-/
import Clausal.Proofs.Capture
import Clausal.Proofs.Idempotence
import Clausal.Proofs.Spelling

namespace Clausal

/-! ## Heads of applications -/

namespace Term

/-- Every head that an evaluation may come to in a term has a property: the heads of applications
    with arguments, in groups and in applications. Nothing else is ever opened. -/
inductive EachHead (P : Term → Prop) : Term → Prop where
  | group {t : Term} : EachHead P t → EachHead P (.group t)
  | app {xs : List Term} : (∀ x ∈ xs, EachHead P x) →
      (∀ head arg args, xs = head :: arg :: args → P head) → EachHead P (.app xs)
  | other {t : Term} : t.isGroup = false → t.isApp = false → EachHead P t

namespace EachHead

variable {P : Term → Prop}

theorem inner {t : Term} (h : (Term.group t).EachHead P) : t.EachHead P := by
  cases h with
  | group h => exact h
  | other hgroup _ => cases hgroup

theorem element {xs : List Term} (h : (Term.app xs).EachHead P) : ∀ x ∈ xs, x.EachHead P := by
  cases h with
  | app h _ => exact h
  | other _ happ => cases happ

theorem head {head arg : Term} {args : List Term} (h : (Term.app (head :: arg :: args)).EachHead P) :
    P head := by
  cases h with
  | app _ h => exact h head arg args rfl
  | other _ happ => cases happ

theorem mono {Q : Term → Prop} (hPQ : ∀ t, P t → Q t) {t : Term} (h : t.EachHead P) :
    t.EachHead Q := by
  induction h with
  | group _ ih => exact .group ih
  | app _ hhead ih => exact .app ih fun head arg args hxs => hPQ head (hhead head arg args hxs)
  | other hgroup happ => exact .other hgroup happ

end EachHead

/-- A term is a name, parentheses apart. -/
def IsNamed (t : Term) : Prop := t.strip.isIdent = true

/-- Nothing but names and variables is applied. -/
def HeadsNamed (t : Term) : Prop := t.EachHead IsNamed

end Term

namespace Program

variable {p : Program}

/-- Parentheses around a name are opened. -/
theorem evaluates_of_strip {t : Term} {n : String} (h : t.strip = .ident n) :
    p.Evaluates t (.ident n) := by
  induction t using Term.inductionOn with
  | ident m =>
    rw [Term.strip] at h
    rw [h]
    exact .ident n
  | group t ih => exact .group (ih h)
  | _ => cases h

/-- A head that is a name, or that comes to something no application can have as its head. -/
def AdmitsHead (p : Program) (head : Term) : Prop :=
  head.IsNamed ∨ ∃ v, p.Evaluates head v ∧ v.isIdent = false

/-- A name stays a head that is admitted if a value is put in its place. -/
theorem AdmitsHead.replace {σ : String → Option Term}
    (hσ : ∀ n v, σ n = some v → p.Evaluates v v) {head : Term} (h : head.IsNamed) :
    p.AdmitsHead (head.replace σ) := by
  induction head using Term.inductionOn with
  | ident n =>
    rw [Term.replace]
    cases hn : σ n with
    | none => exact .inl rfl
    | some v =>
      cases hv : v.isIdent with
      | false => exact .inr ⟨v, hσ n v hn, hv⟩
      | true =>
        cases v with
        | ident m => exact .inl rfl
        | _ => cases hv
  | group t ih =>
    rcases ih h with hnamed | ⟨v, hv, hident⟩
    · exact .inl hnamed
    · exact .inr ⟨v, .group hv, hident⟩
  | _ => cases h

/-- A body that applies nothing but names and variables, with values in the places of its
    variables. -/
theorem eachHead_replace {σ : String → Option Term}
    (hσ : ∀ n v, σ n = some v → p.Evaluates v v ∧ v.EachHead p.AdmitsHead) {t : Term}
    (h : t.HeadsNamed) : (t.replace σ).EachHead p.AdmitsHead := by
  induction h with
  | group _ ih => exact .group ih
  | @app xs _ hhead ih =>
    rw [Term.replace, Term.replaceAll_eq_map]
    refine .app (List.forall_mem_map.2 ih) fun head arg args hxs => ?_
    obtain ⟨head, rest, rfl, rfl, hrest⟩ := List.map_eq_cons_iff.1 hxs
    obtain ⟨arg, rest, rfl, -, -⟩ := List.map_eq_cons_iff.1 hrest
    exact AdmitsHead.replace (fun n v hn => (hσ n v hn).1) (hhead head arg rest rfl)
  | @other t hgroup happ =>
    cases t with
    | ident n =>
      rw [Term.replace]
      cases hn : σ n with
      | none => exact .other rfl rfl
      | some v => exact (hσ n v hn).2
    | group t => cases hgroup
    | seq kind xs =>
      cases kind with
      | application => cases happ
      | _ => exact .other rfl rfl
    | _ => exact .other rfl rfl

/-- Evaluation keeps heads admitted, if the clauses apply nothing but names and variables. -/
theorem Evaluates.eachHead (hbinds : p.Each Clause.BindsVariables) (hscoped : p.Scoped)
    (hnamed : p.Each fun c => c.body.HeadsNamed) {t v : Term} (h : p.Evaluates t v)
    (hclosed : t.Closed) (ht : t.EachHead p.AdmitsHead) : v.EachHead p.AdmitsHead := by
  induction h with
  | group _ ih => exact ih hclosed.inner ht.inner
  | nothing => exact ht
  | single _ ih =>
    exact ih (hclosed.element _ List.mem_cons_self) (ht.element _ List.mem_cons_self)
  | constructor _ _ _ => exact ht
  | @call _ _ _ _ values _ c _ _ _ _ hclauses hlen hvalues hselects _ _ ihargs ihbody =>
    have hargsClosed := (List.forall_mem_cons.1 hclosed.element).2
    have hargs := (List.forall_mem_cons.1 ht.element).2
    have hclosedValues : ∀ w ∈ values, w.Closed :=
      Pointwise.forall_values hvalues hlen fun x hx w hw =>
        hw.closed hbinds hscoped (hargsClosed x hx)
    have hselfValues : ∀ w ∈ values, p.Evaluates w w :=
      Pointwise.forall_values hvalues hlen fun x _ w hw => hw.self
    have hheadValues : ∀ w ∈ values, w.EachHead p.AdmitsHead :=
      Pointwise.forall_values ihargs hlen fun x hx w hw => hw (hargsClosed x hx) (hargs x hx)
    obtain ⟨hbodyClosed, hbody⟩ :=
      instantiate_selected hbinds hscoped hclauses hselects hclosedValues
    refine ihbody hbodyClosed ?_
    rw [hbody]
    refine eachHead_replace (fun n w hw => ?_) (hnamed _ _ hclauses c (by simp))
    have hmem := (Pattern.mem_bindings (Bindings.mem_of_latest hw)).2
    exact ⟨hselfValues w hmem, hheadValues w hmem⟩
  | ident name => exact ht
  | arrow elems => exact ht
  | entity elems => exact ht
  | rel kind left right => exact ht
  | builtin left right => exact ht

/-! ## Values -/

/-- A value shows its constructor: without parentheses, its first element is the name of a
    constructor without clauses. -/
def ShowsConstructor (p : Program) (v : Term) : Prop :=
  ∃ c args, v.strip = .app (.ident c :: args) ∧ p.isValueHead c = true

variable {head arg : Term} {args : List Term} {c : String}

/-- A value shows its constructor exactly if its head is the constructor's name. -/
theorem showsConstructor_iff (hhead : p.Evaluates head (.ident c))
    (hvalue : p.isValueHead c = true) :
    p.ShowsConstructor (.app (head :: arg :: args)) ↔ head.strip = .ident c := by
  constructor
  · rintro ⟨c', args', hstrip, -⟩
    rw [Term.strip, Term.stripAll_eq_map, Term.seq.injEq, List.map_cons, List.cons.injEq] at hstrip
    obtain ⟨-, hname, -⟩ := hstrip
    rw [hname, hhead.unique (evaluates_of_strip hname)]
  · intro hname
    refine ⟨c, (arg :: args).map Term.strip, ?_, hvalue⟩
    rw [Term.strip, Term.stripAll_eq_map, List.map_cons, hname]

/-- A value whose heads are admitted shows its constructor. -/
theorem Evaluates.showsConstructor {t : Term}
    (h : p.Evaluates t (.app (head :: arg :: args)))
    (hheads : (Term.app (head :: arg :: args)).EachHead p.AdmitsHead) :
    p.ShowsConstructor (.app (head :: arg :: args)) := by
  obtain ⟨c, hhead, hvalue⟩ := h.settled.head head arg args rfl
  rw [showsConstructor_iff hhead hvalue]
  rcases hheads.head with hnamed | ⟨v, hv, hident⟩
  · cases hname : head.strip with
    | ident n => exact (evaluates_of_strip hname).unique hhead
    | _ =>
      rw [Term.IsNamed, hname] at hnamed
      cases hnamed
  · rw [hv.unique hhead] at hident
    cases hident

end Program

/-- Two applications of different heads to the same arguments pass the same patterns exactly if
    their heads are the same, parentheses apart. -/
theorem Pattern.admits_alike_iff {head head' arg : Term} {args : List Term} :
    (∀ pattern : Pattern, pattern.Admits (.app (head :: arg :: args)) ↔
        pattern.Admits (.app (head' :: arg :: args))) ↔ head.strip = head'.strip := by
  constructor
  · intro h
    have hadmits : (Pattern.literal (Term.app (head' :: arg :: args)).strip).Admits
        (.app (head :: arg :: args)) := (h _).2 rfl
    simp only [Admits, Term.strip, Term.stripAll, Term.seq.injEq, List.cons.injEq] at hadmits
    exact hadmits.2.1.symm
  · intro h pattern
    have hstrip : (Term.app (head :: arg :: args)).strip
        = (Term.app (head' :: arg :: args)).strip := by
      simp only [Term.strip, Term.stripAll, h]
    cases pattern with
    | literal t => rw [Admits, Admits, hstrip]
    | wildcard => rfl
    | var name => rfl

namespace Evaluator

/-- **Values show their constructor where heads are names.** An application that comes out of a
    reduction has a head that evaluates to a constructor without clauses. It shows the constructor
    exactly if the head is its name, parentheses apart, and exactly then it passes the patterns that
    the constructor itself with the same arguments passes. Every value shows its constructor in a
    closed program that applies nothing but names and variables. -/
theorem values_show_constructor {linear : Bool} {ds : List Term} (e : Evaluator)
    (hload : Program.load linear ds = .ok e.program) :
    (∀ t head arg args, (e.reduce t).outcome = .value (.app (head :: arg :: args)) →
      ∃ c, e.program.Evaluates head (.ident c) ∧ e.program.isValueHead c = true ∧
        (e.program.ShowsConstructor (.app (head :: arg :: args)) ↔ head.strip = .ident c)) ∧
    (∀ head c arg args, e.program.Evaluates head (.ident c) → e.program.isValueHead c = true →
      ∃ v w, e.program.Evaluates (.app (head :: arg :: args)) v ∧
        e.program.Evaluates (.app (.ident c :: arg :: args)) w ∧
        ((∀ pattern : Pattern, pattern.Admits v ↔ pattern.Admits w) ↔ head.strip = .ident c)) ∧
    (e.program.Scoped → (e.program.Each fun c => c.body.HeadsNamed) →
      ∀ t head arg args, t.Closed → t.HeadsNamed →
        (e.reduce t).outcome = .value (.app (head :: arg :: args)) →
        e.program.ShowsConstructor (.app (head :: arg :: args))) := by
  refine ⟨?_, ?_, ?_⟩
  · intro t head arg args hreduce
    obtain ⟨c, hhead, hvalue⟩ := (evaluates_of_reduce hreduce).settled.head head arg args rfl
    exact ⟨c, hhead, hvalue, Program.showsConstructor_iff hhead hvalue⟩
  · intro head c arg args hhead hvalue
    exact ⟨_, _, .constructor hhead hvalue, .constructor (.ident c) hvalue,
      Pattern.admits_alike_iff⟩
  · intro hscoped hnamed t head arg args hclosed ht hreduce
    have hbinds : e.program.Each Clause.BindsVariables :=
      .of_load (fun _ _ _ => Clause.bindsVariables_of_compile) hload
    have hevaluates := evaluates_of_reduce hreduce
    exact hevaluates.showsConstructor (hevaluates.eachHead hbinds hscoped hnamed hclosed
      (ht.mono fun _ => .inl))

/-- Numbers, a function that gives back its argument, and one that knows the number one. -/
def oneDeclarations : List Term :=
  [.entity [.ident "nat", .app [.ident "zero"], .app [.ident "succ", .ident "nat"]],
    .define (.app [.ident "id", .ident "X"]) (.ident "X"),
    .define (.app [.ident "f", .app [.ident "succ", .ident "zero"]]) (.ident "yes"),
    .define (.app [.ident "f", .ident "X"]) (.ident "no")]

/-- The program that they make. -/
def oneProgram : Program where
  types := ⟨[("nat",
    .entity [.ident "nat", .app [.ident "zero"], .app [.ident "succ", .ident "nat"]])]⟩
  clauses := ⟨[("id", [⟨"id", [.var "X"], .ident "X", [.ident "id", .ident "X"]⟩]),
    ("f", [⟨"f", [.literal (.app [.ident "succ", .ident "zero"])], .ident "yes",
        [.ident "f", .app [.ident "succ", .ident "zero"]]⟩,
      ⟨"f", [.var "X"], .ident "no", [.ident "f", .ident "X"]⟩])]⟩
  bindings := .empty
  constructors := [("succ", "nat"), ("zero", "nat")]

/-- The bodies of its clauses are names and variables that the clauses bind. -/
theorem oneProgram_bodies : oneProgram.Each fun c => ∃ n, c.body = .ident n ∧
    (Pattern.isVariableName n = true → .var n ∈ c.params) := by
  intro name clauses hclauses c hc
  have hmem := Environment.mem_entries_of_get? hclauses
  simp only [oneProgram, List.mem_cons, Prod.mk.injEq, List.not_mem_nil, or_false] at hmem
  rcases hmem with ⟨-, rfl⟩ | ⟨-, rfl⟩
  · rw [List.mem_singleton.1 hc]
    exact ⟨"X", rfl, fun _ => by simp⟩
  · rcases List.mem_pair.1 hc with rfl | rfl
    · exact ⟨"yes", rfl, fun h => absurd h (by decide)⟩
    · exact ⟨"no", rfl, fun h => absurd h (by decide)⟩

theorem oneProgram_scoped : oneProgram.Scoped := by
  intro name clauses hclauses c hc n hn hoccurs
  obtain ⟨m, hbody, hbound⟩ := oneProgram_bodies name clauses hclauses c hc
  rw [hbody, Term.occurs_ident, decide_eq_true_eq] at hoccurs
  subst hoccurs
  exact hbound hn

theorem oneProgram_headsNamed : oneProgram.Each fun c => c.body.HeadsNamed := by
  intro name clauses hclauses c hc
  obtain ⟨m, hbody, -⟩ := oneProgram_bodies name clauses hclauses c hc
  rw [hbody]
  exact .other rfl rfl

/-- A number that a function gives back begins with its constructor. -/
theorem values_show_constructor_one :
    ((new oneProgram .bare .quiet).reduce
        (.app [.ident "id", .app [.ident "succ", .ident "zero"]])).outcome
          = .value (.app [.ident "succ", .ident "zero"]) ∧
      oneProgram.ShowsConstructor (.app [.ident "succ", .ident "zero"]) := by
  have hload : Program.load false oneDeclarations = .ok (new oneProgram .bare .quiet).program := rfl
  have hreduce : ((new oneProgram .bare .quiet).reduce
      (.app [.ident "id", .app [.ident "succ", .ident "zero"]])).outcome
        = .value (.app [.ident "succ", .ident "zero"]) := by
    rw [reduce, finish_of_iterate 12 rfl (by decide)]
    rfl
  have hclosed : (Term.app [.ident "id", .app [.ident "succ", .ident "zero"]]).Closed := by
    have hone : (Term.app [.ident "succ", .ident "zero"]).Closed :=
      .app (by simpa using ⟨.ident (by decide), .ident (by decide)⟩)
    exact .app (by simpa using ⟨.ident (by decide), hone⟩)
  have hnamed : (Term.app [.ident "id", .app [.ident "succ", .ident "zero"]]).HeadsNamed := by
    have hname : ∀ n, (Term.ident n).HeadsNamed := fun _ => .other rfl rfl
    have hone : (Term.app [.ident "succ", .ident "zero"]).HeadsNamed := by
      refine .app (by simpa using ⟨hname _, hname _⟩) ?_
      rintro _ _ _ ⟨⟩
      rfl
    refine .app (by simpa using ⟨hname _, hone⟩) ?_
    rintro _ _ _ ⟨⟩
    rfl
  exact ⟨hreduce, (values_show_constructor _ hload).2.2 oneProgram_scoped oneProgram_headsNamed _ _
    _ _ hclosed hnamed hreduce⟩

/-- A number whose constructor is still to be found does not begin with it, and passes for another
    number. -/
theorem called_head_hides_constructor :
    parseProgram (Text.ofString
        "decltype nat = zero | succ nat ; > id X = X ; > f (succ zero) = yes ; > f X = no") ""
        = .ok oneDeclarations ∧
      Program.load Config.standard.linear oneDeclarations = .ok oneProgram ∧
      ((new oneProgram .standard .quiet).reduce (.app [.ident "id", .ident "succ"])).outcome
        = .value (.ident "succ") ∧
      oneProgram.isValueHead "succ" = true ∧
      ((new oneProgram .standard .quiet).reduce
        (.app [.group (.app [.ident "id", .ident "succ"]), .ident "zero"])).outcome
          = .value (.app [.group (.app [.ident "id", .ident "succ"]), .ident "zero"]) ∧
      ((new oneProgram .standard .quiet).reduce
        (.app [.ident "f", .group (.app [.ident "succ", .ident "zero"])])).outcome
          = .value (.ident "yes") ∧
      ((new oneProgram .standard .quiet).reduce (.app [.ident "f",
        .group (.app [.group (.app [.ident "id", .ident "succ"]), .ident "zero"])])).outcome
          = .value (.ident "no") := by
  refine ⟨by decide +kernel, rfl, ?_, by decide, ?_, ?_, ?_⟩
  · rw [reduce, finish_of_iterate 7 rfl (by decide)]
    rfl
  · rw [reduce, finish_of_iterate 9 rfl (by decide)]
    rfl
  · rw [reduce, finish_of_iterate 12 rfl (by decide)]
    rfl
  · rw [reduce, finish_of_iterate 30 rfl (by decide)]
    rfl

end Evaluator

end Clausal
