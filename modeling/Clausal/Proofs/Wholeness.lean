/-
  Clausal.Proofs.Wholeness

  No term goes missing. A machine that holds whole terms only goes on to hold whole terms only
  (`wholeContents_kept`), so an evaluation of a whole term comes to whole terms and tells of nothing
  else, provided that the program was loaded from whole declarations (`wholeContents_load`).
-/
import Clausal.Proofs.Loading

namespace Clausal

/-- Terms of which nothing is missing, and whatever comes of them. -/
def wholeContents : Contents := ⟨Term.Whole, fun _ => True, fun _ => True⟩

theorem wholeContents_kept : wholeContents.Kept where
  inner := by
    rintro t (_ | ht)
    exact ht
  element h := Term.whole_seq.1 h
  subst n ht hr := ht.subst hr n
  stray _ _ := trivial
  absent _ := trivial
  call _ := trivial
  fault _ := trivial
  head _ _ := trivial

theorem wholeContents_load {linear : Bool} {ds : List Term} {p : Program}
    (hload : Program.load linear ds = .ok p) (hds : ∀ d ∈ ds, d.Whole) :
    wholeContents.OfProgram p := by
  intro name clauses hclauses c hc
  obtain ⟨left, right, hd, hcompile⟩ := Program.exists_declaration hload hclauses hc
  obtain ⟨head, args, -, rfl⟩ := Clause.compile_ok hcompile
  exact (Term.whole_rel.1 (hds _ hd)).2

/-! ## Texts -/

theorem Term.Formed.whole {names : String → Prop} {least : Nat} {t : Term}
    (h : t.Formed names least) : t.Whole := by
  induction h with
  | ident _ => exact .ident _
  | group _ ih => exact .group ih
  | seq _ _ _ ih => exact .seq ih

namespace Grammar

theorem Factor.term_whole (f : Factor) : f.term.Whole := (f.term_formed fun _ _ => trivial).whole

theorem Expression.term_whole (e : Expression) : e.term.Whole :=
  (e.term_formed fun _ _ => trivial).whole

theorem Parameter.term_whole (p : Parameter) : p.term.Whole := by
  cases p with
  | wildcard => exact .ident _
  | name n => exact .ident n
  | paren body => exact body.term_whole

theorem Constructor.term_whole (c : Constructor) : c.term.Whole := by
  refine .seq (List.forall_mem_cons.2 ⟨.ident _, ?_⟩)
  exact List.forall_mem_map.2 fun f _ => f.term_whole

theorem Statement.term_whole (s : Statement) : s.term.Whole := by
  cases s with
  | datatype name params constructors =>
    refine .seq (List.forall_mem_cons.2 ⟨.ident _, List.forall_mem_append.2 ⟨?_, ?_⟩⟩)
    · exact List.forall_mem_map.2 fun n _ => .ident n
    · exact List.forall_mem_map.2 fun c _ => c.term_whole
  | builtin name type => exact .builtin (.ident _) type.term_whole
  | signature name type => exact .rel (.ident _) type.term_whole
  | clause name first more body =>
    refine .rel (.seq (List.forall_mem_cons.2 ⟨.ident _, ?_⟩)) body.term_whole
    exact List.forall_mem_map.2 fun p _ => p.term_whole

end Grammar

theorem parseProgram_whole {text : Text} {file : String} {ds : List Term}
    (h : parseProgram text file = .ok ds) : ∀ d ∈ ds, d.Whole := by
  intro d hd
  obtain ⟨s, rfl, -⟩ := exists_statement_of_parseProgram h d hd
  exact s.term_whole

theorem parseExpression_whole {text : Text} {t : Term} (h : parseExpression text = .ok t) :
    t.Whole :=
  (Term.Plain.of_parsed h).whole

/-! ## Evaluations -/

theorem Evaluator.interpret_whole {e : Evaluator} (hprogram : wholeContents.OfProgram e.program)
    (hseed : e.config.seedTerm.Whole) : ∀ ev ∈ e.interpret.events, wholeContents.OfEvent ev := by
  rw [interpret]
  split
  · rintro ev ⟨⟩
  · have hstart : (Term.app [.ident e.config.entryName, e.config.seedTerm]).Whole := by
      simpa using hseed
    obtain ⟨evaluation, hwhole, hrun⟩ := Contents.exists_evaluation wholeContents_kept hprogram
      (fun _ _ => trivial) hstart e.config.patience
    rw [hrun]
    exact hwhole.events

end Clausal
