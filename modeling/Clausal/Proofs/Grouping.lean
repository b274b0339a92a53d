/-
  Clausal.Proofs.Grouping

  Grouping is transparent to reduction. Loading commutes with taking groups off
  (`Program.load_agrees`), and so do runs of the machine, so that two ways to write the same program
  and the same term come to the same. What is recorded of an evaluation shows no groups
  (`Event.record_strip`).
-/
import Clausal.Archive.Record
import Clausal.Proofs.Erasure
import Clausal.Proofs.WellFormed

namespace Clausal

open Term

/-! ## Loading -/

/-- A declaration whose groups stand where a term may stand in parentheses: not around the pattern
    of a clause, the name of a signature or an element of a type. -/
inductive Groupable : Term → Prop where
  | entity {elems : List Term} :
      (∀ x ∈ elems, x.isGroup = false ∧ x.Basic) → Groupable (.entity elems)
  | define {elems : List Term} {right : Term} : (∀ x ∈ elems, x.Basic) →
      right.Basic → Groupable (.define (.app elems) right)
  | isa {n : String} {right : Term} : right.Basic → Groupable (.isa (.ident n) right)
  | builtin {n : String} {right : Term} : right.Basic → Groupable (.builtin (.ident n) right)
  | equation {left right : Term} : left.Basic →
      right.Basic → Groupable (.equation left right)
  /-- An expression is no declaration, with groups or without. -/
  | expression {t : Term} : t.Basic → Groupable t

namespace Program

variable {linear : Bool}

/-- The second attempt to load succeeds if the first does, with the same program without groups, and
    fails if it fails, whatever the complaint. -/
def Agree (x y : Except LoadError Program) : Prop :=
  x.toOption.map Program.strip = y.toOption

namespace Agree

variable {x y : Except LoadError Program}

theorem ok (h : Agree x y) {p : Program} (hx : x = .ok p) : y = .ok p.strip := by
  rw [Agree, hx] at h
  cases y with
  | error err => cases h
  | ok q => exact congrArg Except.ok (Option.some.inj h).symm

theorem error (h : Agree x y) {err : LoadError} (hx : x = .error err) :
    ∃ err', y = .error err' := by
  rw [Agree, hx] at h
  cases y with
  | error err' => exact ⟨err', rfl⟩
  | ok q => cases h

theorem exists_ok_iff (h : Agree x y) : (∃ p, x = .ok p) ↔ ∃ p, y = .ok p := by
  cases hx : x with
  | error err =>
    obtain ⟨err', hy⟩ := h.error hx
    simp [hy]
  | ok p => simp [h.ok hx]

end Agree

theorem add_expression (p : Program) {t : Term} (h : t.Basic) :
    p.add linear t = .error (.notDeclaration t) := by
  cases h with
  | ident _ => rfl
  | group _ => rfl
  | @seq k _ hk _ _ =>
    cases k with
    | application => rfl
    | arrow => rfl
    | entity => exact absurd rfl hk

theorem strip_addClause (p : Program) (c : Clause) :
    (p.addClause c).strip = p.strip.addClause c.strip := by
  have hclauses : ((p.clauses.get? c.name).getD []).map Clause.strip
      = ((p.clauses.get? c.name).map (List.map Clause.strip)).getD [] := by
    cases p.clauses.get? c.name <;> rfl
  have hname : c.strip.name = c.name := rfl
  simp only [addClause, strip, Environment.map_put, List.map_append, hclauses,
    Environment.get?_map, hname, List.map_cons, List.map_nil]

theorem addBinding_agrees (p : Program) (n : String) (right : Term) :
    Agree (p.addBinding (.ident n) right) (p.strip.addBinding (.ident n) right.strip) := by
  have hcontains : p.strip.bindings.contains n = p.bindings.contains n :=
    Environment.contains_map _ _ _
  rw [addBinding, addBinding, Environment.define, Environment.define, hcontains]
  cases p.bindings.contains n with
  | true => rfl
  | false =>
    have hput := Environment.map_put Term.strip p.bindings n right
    exact congrArg (fun bindings => some { p.strip with bindings := bindings }) hput

theorem constructorName?_strip {t : Term} (hgroup : t.isGroup = false)
    (h : t.Basic) : constructorName? t.strip = constructorName? t := by
  cases h with
  | ident _ => rfl
  | group _ => cases hgroup
  | @seq k xs _ _ hxs =>
    rw [Term.strip, stripAll_eq_map]
    rcases xs with _ | ⟨x, xs⟩
    · cases k <;> rfl
    · have hrender := (hxs x List.mem_cons_self).solid.render_strip
      cases k with
      | application => exact congrArg some hrender
      | arrow => rfl
      | entity => rfl

theorem addType_agrees (p : Program) {elems : List Term}
    (h : ∀ x ∈ elems, x.isGroup = false ∧ x.Basic) :
    Agree (p.addType elems) (p.strip.addType (elems.map Term.strip)) := by
  cases elems with
  | nil => rfl
  | cons head rest =>
    have hrender : head.strip.render = head.render :=
      (h head List.mem_cons_self).2.solid.render_strip
    have hcontains : p.strip.types.contains head.render = p.types.contains head.render :=
      Environment.contains_map _ _ _
    have hnames : (Term.constructors ((head :: rest).map Term.strip)).filterMap constructorName?
        = (Term.constructors (head :: rest)).filterMap constructorName? := by
      rw [constructors_strip fun x hx => (h x hx).1, List.filterMap_map]
      refine List.filterMap_congr fun x hx => ?_
      obtain ⟨hgroup, hformed⟩ := h x (List.mem_of_mem_tail (List.mem_filter.1 hx).1)
      exact constructorName?_strip hgroup hformed
    rw [List.map_cons] at hnames ⊢
    rw [addType, addType, hrender, hnames, Environment.define, Environment.define, hcontains]
    cases p.types.contains head.render with
    | true => rfl
    | false =>
      have hput := Environment.map_put Term.strip p.types head.render (.entity (head :: rest))
      rw [Term.strip, stripAll_eq_map, List.map_cons] at hput
      exact congrArg (fun types => some (Program.mk types p.strip.clauses p.strip.bindings
        ((((Term.constructors (head :: rest)).filterMap constructorName?).map
          fun c => (c, head.render)).reverse ++ p.constructors))) hput

theorem compile_agrees (p : Program) {elems : List Term}
    (h : ∀ x ∈ elems, x.Basic) (right : Term) :
    Agree ((Clause.compile linear (.app elems) right).map p.addClause)
      ((Clause.compile linear (.app (elems.map Term.strip)) right.strip).map
        p.strip.addClause) := by
  cases elems with
  | nil => rfl
  | cons head args =>
    have hrender : head.strip.render = head.render :=
      (h head List.mem_cons_self).solid.render_strip
    have hparams : (args.map Term.strip).map Pattern.ofTerm = args.map Pattern.ofTerm := by
      rw [List.map_map]
      exact List.map_congr_left fun x _ => Pattern.ofTerm_strip x
    rw [List.map_cons, Clause.compile, Clause.compile, hrender, hparams]
    split
    · rfl
    · exact congrArg some (strip_addClause p _)

theorem add_agrees (p : Program) {d : Term} (h : Groupable d) :
    Agree (p.add linear d) (p.strip.add linear d.strip) := by
  cases h with
  | entity helems =>
    rw [Term.strip, stripAll_eq_map]
    exact addType_agrees p helems
  | define helems _ =>
    rw [Term.strip, Term.strip, stripAll_eq_map]
    exact compile_agrees p helems _
  | isa _ => exact addBinding_agrees p _ _
  | builtin _ => exact addBinding_agrees p _ _
  | equation _ _ => rfl
  | expression ht =>
    rw [add_expression p ht, add_expression p.strip ht.strip]
    rfl

theorem load_agrees {ds : List Term} (h : ∀ d ∈ ds, Groupable d) :
    Agree (load linear ds) (load linear (ds.map Term.strip)) := by
  have hfrom : ∀ p : Program,
      Agree (ds.foldlM (add linear) p) ((ds.map Term.strip).foldlM (add linear) p.strip) := by
    induction ds with
    | nil => exact fun p => rfl
    | cons d ds ih =>
      intro p
      rw [List.forall_mem_cons] at h
      have hadd : Agree (p.add linear d) (p.strip.add linear d.strip) := add_agrees p h.1
      rw [List.map_cons, List.foldlM_cons, List.foldlM_cons]
      cases hp : p.add linear d with
      | error err =>
        obtain ⟨err', hp'⟩ := hadd.error hp
        rw [hp']
        rfl
      | ok q =>
        rw [hadd.ok hp]
        exact ih h.2 q
  exact hfrom .empty

theorem Built.add_groupable {p p' : Program} {d : Term} (hd : Groupable d)
    (h : p.Built (Term.Basic) (fun _ => True))
    (hadd : p.add linear d = .ok p') :
    p'.Built (Term.Basic) (fun _ => True) := by
  cases hd with
  | entity helems => exact h.addType hadd
  | define helems hright => exact h.addCompiled hright hadd
  | isa _ => exact h.addBinding trivial hadd
  | builtin _ => exact h.addBinding trivial hadd
  | equation _ _ => cases hadd
  | expression ht =>
    rw [add_expression p ht] at hadd
    cases hadd

theorem load_groupable {ds : List Term} (h : ∀ d ∈ ds, Groupable d) {p : Program}
    (hload : load linear ds = .ok p) : Machine.grouped.OfProgram p := by
  have hempty : Program.empty.Built (Term.Basic) (fun _ => True) := by
    refine ⟨?_, ?_⟩ <;>
      · intro x hx
        cases hx
  have hbuilt : p.Built (Term.Basic) (fun _ => True) :=
    (foldlM_add (fun d hd _ _ hp hadd => hp.add_groupable (h d hd) hadd) hempty).1 p hload
  intro name clauses hclauses
  exact hbuilt.clauses _ (Environment.mem_entries_of_get? hclauses)

end Program

/-! ## Evaluations -/

def Outcome.strip : Outcome → Outcome
  | .value t => .value t.strip
  | .failure f => .failure f
  | .unfinished => .unfinished

/-- What a run that was given up or ended comes to. -/
def Outcome.ofResult : Option (Except Failure Term) → Outcome
  | some (.ok t) => .value t
  | some (.error f) => .failure f
  | none => .unfinished

theorem Outcome.ofResult_strip (result : Option (Except Failure Term)) :
    ofResult (result.map (Except.map Term.strip)) = (ofResult result).strip := by
  rcases result with _ | _ | _ <;> rfl

/-- An event as it is recorded: depth, name, and the texts of the arguments, of the result or of the
    failure. -/
def Event.record (e : Event Failure) : Record := Record.ofEvent (e.mapError Failure.message)

theorem Record.left_ok {t : Term} (h : t ≠ .hole) (depth : Int) (name : String) :
    left depth name (.ok t) = ⟨.result, depth, name, [], t.render, ""⟩ := by
  cases t <;> first | rfl | exact absurd rfl h

/-- Records do not show groups. -/
theorem Event.record_strip {e : Event Failure} (h : Machine.grouped.OfEvent e) :
    e.strip.record = e.record := by
  cases e with
  | enter depth name args =>
    have hargs := Machine.map_render_strip h
    exact congrArg (fun texts => (⟨.call, depth, name, texts, "", ""⟩ : Record)) hargs
  | leave depth name result =>
    cases result with
    | error f => rfl
    | ok t =>
      have ht : t.Basic := h
      have hleft := Record.left_ok ht.solid.ne_hole depth name
      have hstripped := Record.left_ok ht.strip.solid.ne_hole depth name
      rw [ht.solid.render_strip] at hstripped
      exact hstripped.trans hleft.symm

namespace Evaluator

theorem finish_eq {e : Evaluator} {m m' : Machine} {result : Option (Except Failure Term)}
    (h : m.run e.program e.config e.config.horizon = (result, m')) :
    e.finish m = ⟨.ofResult result,
      { e with steps := m'.steps, calls := m'.calls, signal := m'.signal },
      m'.events.reverse⟩ := by
  rw [finish, h]
  rcases result with _ | _ | _ <;> rfl

/-- Reducing a term without its groups, in the program without its groups, comes to the same,
    without groups: as many calls, the same records and the same failure. -/
theorem reduce_strip {p : Program} (hp : Machine.grouped.OfProgram p) (config : Config)
    (signal : Signal) {t : Term} (ht : t.Basic) :
    ((new p.strip config signal).reduce t.strip).evaluator.steps
        = ((new p config signal).reduce t).evaluator.steps ∧
      ((new p.strip config signal).reduce t.strip).events.map Event.record
        = ((new p config signal).reduce t).events.map Event.record ∧
      ((new p.strip config signal).reduce t.strip).outcome
        = ((new p config signal).reduce t).outcome.strip := by
  have hheld : Machine.grouped.Holds ((new p config signal).machine (.reduce t)) := by
    refine ⟨ht, ?_, ?_, ?_⟩ <;>
      · intro x hx
        cases hx
  have hdirect : ((new p config signal).machine (.reduce t)).Direct := by
    refine ⟨?_, ?_⟩
    · rintro v ⟨⟩
    · intro f hf
      cases hf
  have hrun : ((new p.strip config signal).machine (.reduce t.strip)).run p.strip config
      config.horizon = _ := Machine.run_strip hp config config.horizon hheld hdirect
  have hlast := hheld.reaches Machine.grouped_kept hp
    (Machine.run_reaches p config config.horizon ((new p config signal).machine (.reduce t))).1
  rcases hr : ((new p config signal).machine (.reduce t)).run p config config.horizon
    with ⟨result, m⟩
  rw [hr] at hrun hlast
  have hplain : (new p config signal).reduce t = _ := finish_eq hr
  have hstripped : (new p.strip config signal).reduce t.strip = _ := finish_eq hrun
  rw [hplain, hstripped]
  refine ⟨rfl, ?_, Outcome.ofResult_strip result⟩
  have hevents : m.strip.events.reverse = m.events.reverse.map Event.strip := List.map_reverse.symm
  simp only [hevents, List.map_map]
  refine List.map_congr_left fun x hx => ?_
  exact Event.record_strip (hlast.events x (List.mem_reverse.1 hx))

end Evaluator

/-- Grouping is transparent to reduction. Two ways to write the same declarations are loaded both or
    not at all; and two ways to write the same term, each reduced in its program, come to the same:
    with as many calls, the same records of them, the same failure if any, and otherwise values that
    are the same once the groups are taken off. -/
theorem grouping_transparent {ds ds' : List Term} (hds : ∀ d ∈ ds, Groupable d)
    (hds' : ∀ d ∈ ds', Groupable d) (hsame : ds.map Term.strip = ds'.map Term.strip) {t t' : Term}
    (ht : t.Basic) (ht' : t'.Basic) (hterm : t.strip = t'.strip) (config : Config)
    (signal : Signal) :
    ((∃ p, Program.load config.linear ds = .ok p) ↔ ∃ p, Program.load config.linear ds' = .ok p) ∧
      ∀ p p', Program.load config.linear ds = .ok p → Program.load config.linear ds' = .ok p' →
        ((Evaluator.new p config signal).reduce t).evaluator.steps
            = ((Evaluator.new p' config signal).reduce t').evaluator.steps ∧
          ((Evaluator.new p config signal).reduce t).events.map Event.record
            = ((Evaluator.new p' config signal).reduce t').events.map Event.record ∧
          ((Evaluator.new p config signal).reduce t).outcome.strip
            = ((Evaluator.new p' config signal).reduce t').outcome.strip := by
  have hload : Program.Agree (Program.load config.linear ds)
      (Program.load config.linear (ds.map Term.strip)) := Program.load_agrees hds
  have hload' : Program.Agree (Program.load config.linear ds')
      (Program.load config.linear (ds'.map Term.strip)) := Program.load_agrees hds'
  rw [← hsame] at hload'
  refine ⟨hload.exists_ok_iff.trans hload'.exists_ok_iff.symm, ?_⟩
  intro p p' hp hp'
  have hprogram : p.strip = p'.strip := Except.ok.inj ((hload.ok hp).symm.trans (hload'.ok hp'))
  obtain ⟨hsteps, hrecords, houtcome⟩ :=
    Evaluator.reduce_strip (Program.load_groupable hds hp) config signal ht
  obtain ⟨hsteps', hrecords', houtcome'⟩ :=
    Evaluator.reduce_strip (Program.load_groupable hds' hp') config signal ht'
  rw [hprogram, hterm] at hsteps hrecords houtcome
  exact ⟨hsteps.symm.trans hsteps', hrecords.symm.trans hrecords', houtcome.symm.trans houtcome'⟩

/-- The clause `> f X = X`, with both variables in groups. -/
def groupedIdentity : Term :=
  .define (.app [.ident "f", .group (.ident "X")]) (.group (.ident "X"))

/-- The clause `> f X = X`. -/
def plainIdentity : Term := .define (.app [.ident "f", .ident "X"]) (.ident "X")

/-- Groups around the parameter, the body, the argument and the whole call make no difference. -/
theorem grouping_transparent_call :
    ∃ p p', Program.load false [groupedIdentity] = .ok p ∧
      Program.load false [plainIdentity] = .ok p' ∧
      let grouped := (Evaluator.new p .bare .quiet).reduce
        (.group (.app [.ident "f", .group (.ident "a")]))
      let plain := (Evaluator.new p' .bare .quiet).reduce (.app [.ident "f", .ident "a"])
      grouped.evaluator.steps = plain.evaluator.steps ∧
        grouped.events.map Event.record = plain.events.map Event.record ∧
        grouped.outcome.strip = plain.outcome.strip := by
  have hname : ∀ n, (Term.ident n).Basic := fun n => .ident trivial
  have hgroup : ∀ n, (Term.group (.ident n)).Basic := fun n => .group (hname n)
  have hcall : (Term.app [.ident "f", .ident "a"]).Basic := by
    refine .seq (by decide) (by decide) ?_
    simp [hname]
  have hgrouped : (Term.app [.ident "f", .group (.ident "a")]).Basic := by
    refine .seq (by decide) (by decide) ?_
    simp [hname, hgroup]
  have hds : ∀ d ∈ [groupedIdentity], Groupable d := by
    rw [List.forall_mem_singleton]
    exact .define (by simp [hname, hgroup]) (hgroup "X")
  have hds' : ∀ d ∈ [plainIdentity], Groupable d := by
    rw [List.forall_mem_singleton]
    exact .define (by simp [hname]) (hname "X")
  obtain ⟨-, hsame⟩ := grouping_transparent hds hds' rfl (.group hgrouped) hcall rfl .bare .quiet
  exact ⟨_, _, rfl, rfl, hsame _ _ rfl rfl⟩

end Clausal
