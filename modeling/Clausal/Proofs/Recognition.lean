/-
  Clausal.Proofs.Recognition

  The parser accepts exactly what the grammar derives, and builds what the derivation means.

  Statements are read by their rules, so a text is read by cutting one statement after the other off
  it (`Parser.ReadsAll`). This gives a derivation of everything that is read, and reads everything
  that has a derivation.
-/
import Clausal.Proofs.Statements

namespace Clausal.Parser

open Grammar

/-! ## Whole texts -/

/-- A text with one more semicolon before it. -/
def Source.delayed : Source → Source
  | .empty n => .empty (n + 1)
  | .of leading first more trailing => .of (leading + 1) first more trailing

/-- A text with one more statement and a semicolon before it. -/
def Source.after (s : Statement) : Source → Source
  | .empty n => .of 0 s [] (n + 1)
  | .of leading first more trailing => .of 0 s ((leading, first) :: more) trailing

@[simp] theorem Source.delayed_symbols (d : Source) :
    (Source.delayed d).symbols = .mark .semicolon :: d.symbols := by
  cases d <;> rfl

@[simp] theorem Source.delayed_terms (d : Source) : (Source.delayed d).terms = d.terms := by
  cases d <;> rfl

@[simp] theorem Source.after_symbols (s : Statement) (d : Source) :
    (Source.after s d).symbols = s.symbols ++ .mark .semicolon :: d.symbols := by
  cases d with
  | empty n => rfl
  | of leading first more trailing =>
    simp only [after, Source.symbols, List.flatMap_cons, separated, List.append_assoc]
    rfl

@[simp] theorem Source.after_terms (s : Statement) (d : Source) :
    (Source.after s d).terms = s.term :: d.terms := by
  cases d <;> rfl

/-- A text is empty, or begins with a semicolon, or with a statement. Behind the statement the text
    is at its end, or goes on with a semicolon. -/
theorem Source.exists_eq (d : Source) :
    d = .empty 0 ∨ (∃ d', d = Source.delayed d') ∨ (∃ s, d = .of 0 s [] 0) ∨
      ∃ s d', d = Source.after s d' := by
  rcases d with (_ | n) | ⟨_ | leading, first, _ | ⟨⟨between, second⟩, more⟩, trailing⟩
  · exact .inl rfl
  · exact .inr (.inl ⟨.empty n, rfl⟩)
  · cases trailing with
    | zero => exact .inr (.inr (.inl ⟨first, rfl⟩))
    | succ n => exact .inr (.inr (.inr ⟨first, .empty n, rfl⟩))
  · exact .inr (.inr (.inr ⟨first, .of between second more trailing, rfl⟩))
  · exact .inr (.inl ⟨.of leading first [] trailing, rfl⟩)
  · exact .inr (.inl ⟨.of leading first ((between, second) :: more) trailing, rfl⟩)

theorem statements_succ (n : Nat) (p : Parser) :
    statements (n + 1) p =
      if p.isDone then .ok p
      else if p.is .semicolon then statements n p.advance
      else p.statement >>= fun p =>
        if p.isDone then .ok p else p.expect .semicolon >>= statements n := by
  rw [statements]
  rfl

/-- A parser reads a whole text. -/
structure ReadsAll (p : Parser) (d : Source) (q : Parser) : Prop where
  reads : p.Reads d.symbols (d.terms.reverse ++ p.stack) q
  done : q.symbols = []

namespace ReadsAll

variable {p m q : Parser} {s : Statement} {d : Source}

@[simp] theorem empty_iff : p.ReadsAll (.empty 0) q ↔ p.symbols = [] ∧ q = p := by
  constructor
  · rintro ⟨hreads, hdone⟩
    obtain rfl : q = p := Reads.nil_iff.1 hreads
    exact ⟨hdone, rfl⟩
  · rintro ⟨hdone, rfl⟩
    exact ⟨Reads.nil_iff.2 rfl, hdone⟩

theorem delayed_iff :
    p.ReadsAll (Source.delayed d) q
      ↔ p.symbols.head? = some (.mark .semicolon) ∧ p.advance.ReadsAll d q := by
  constructor
  · rintro ⟨hreads, hdone⟩
    rw [Source.delayed_symbols, Source.delayed_terms, Reads.cons_iff] at hreads
    exact ⟨hreads.1, hreads.2, hdone⟩
  · rintro ⟨hhead, hreads, hdone⟩
    refine ⟨?_, hdone⟩
    rw [Source.delayed_symbols, Source.delayed_terms]
    exact Reads.cons_iff.2 ⟨hhead, hreads⟩

theorem single_iff :
    p.ReadsAll (.of 0 s [] 0) q ↔ p.Reads s.symbols (s.term :: p.stack) q ∧ q.symbols = [] := by
  have hsymbols : (Source.of 0 s [] 0).symbols = s.symbols := List.append_nil _
  constructor
  · rintro ⟨hreads, hdone⟩
    rw [hsymbols] at hreads
    exact ⟨hreads, hdone⟩
  · rintro ⟨hreads, hdone⟩
    refine ⟨?_, hdone⟩
    rw [hsymbols]
    exact hreads

/-- The statement is read first, and the rest from behind the semicolon. -/
theorem after_iff :
    p.ReadsAll (Source.after s d) q ↔ ∃ m, p.Reads s.symbols (s.term :: p.stack) m ∧
      m.symbols.head? = some (.mark .semicolon) ∧ m.advance.ReadsAll d q := by
  have hterms : (Source.after s d).terms.reverse ++ p.stack
      = d.terms.reverse ++ (s.term :: p.stack) := by
    simp
  constructor
  · rintro ⟨hreads, hdone⟩
    rw [Source.after_symbols, hterms] at hreads
    obtain ⟨m, hm, hreads⟩ := (Reads.append_iff (s.term :: p.stack)).1 hreads
    rw [Reads.cons_iff, ← hm.stack_eq] at hreads
    exact ⟨m, hm, hreads.1, hreads.2, hdone⟩
  · rintro ⟨m, hm, hhead, hreads, hdone⟩
    refine ⟨?_, hdone⟩
    rw [Source.after_symbols, hterms, ← hm.stack_eq]
    refine (Reads.append_iff (s.term :: p.stack)).2 ⟨m, hm, ?_⟩
    exact Reads.cons_iff.2 ⟨hhead, hreads⟩

end ReadsAll

theorem advance_length_lt {p : Parser} {w : Symbol} (h : p.symbols.head? = some w) :
    p.advance.tokens.length < p.tokens.length := by
  obtain ⟨file, tokens, stop, stack⟩ := p
  cases tokens with
  | nil => cases h
  | cons t tokens => exact Nat.lt_succ_self _

theorem statement_ne_builtinMarker (s : Statement) (rest : List Term) :
    (s.term :: rest).head? ≠ some .builtinMarker := by
  cases s <;> simp [Statement.term]

theorem statements_sound {n : Nat} {p q : Parser} (hp : p.Sound)
    (hstack : p.stack.head? ≠ some .builtinMarker) (hlength : p.tokens.length ≤ n)
    (h : statements n p = .ok q) : ∃ d, p.ReadsAll d q := by
  induction n generalizing p with
  | zero =>
    have hnil : p.symbols = [] := by
      rw [symbols, List.length_eq_zero_iff.1 (Nat.le_zero.1 hlength), List.map_nil]
    exact ⟨.empty 0, ReadsAll.empty_iff.2 ⟨hnil, (Except.ok.inj h).symm⟩⟩
  | succ n ih =>
    rw [statements_succ] at h
    split at h
    · rename_i hdone
      cases h
      exact ⟨.empty 0, ReadsAll.empty_iff.2 ⟨(isDone_iff hp).1 hdone, rfl⟩⟩
    · split at h
      · rename_i hsemicolon
        have hhead := (is_mark_iff hp (by decide)).1 hsemicolon
        have hlt := advance_length_lt hhead
        obtain ⟨d, hd⟩ := ih hp.advance hstack (by omega) h
        exact ⟨Source.delayed d, ReadsAll.delayed_iff.2 ⟨hhead, hd⟩⟩
      · obtain ⟨m, hm, h⟩ := bind_eq_ok_iff.1 h
        obtain ⟨s, hs⟩ := statement_obeys.sound hp hstack hm
        have hm_sound := hs.sound hp
        split at h
        · rename_i hdone
          cases h
          exact ⟨.of 0 s [] 0, ReadsAll.single_iff.2 ⟨hs, (isDone_iff hm_sound).1 hdone⟩⟩
        · obtain ⟨m', hm', h⟩ := bind_eq_ok_iff.1 h
          obtain ⟨-, hm'⟩ := (expect_obeys .semicolon (by decide)).sound
            hm_sound trivial hm'
          obtain ⟨hhead, rfl⟩ := reads_singleton_iff.1 hm'
          have hlen := hs.length_eq
          have hlt := advance_length_lt hhead
          have hm_stack : m.stack.head? ≠ some .builtinMarker := by
            rw [hs.stack_eq]
            exact statement_ne_builtinMarker s _
          have hm_length : m.advance.tokens.length ≤ n := by omega
          obtain ⟨d, hd⟩ := ih hm_sound.advance hm_stack hm_length h
          exact ⟨Source.after s d, ReadsAll.after_iff.2 ⟨m, hs, hhead, hd⟩⟩

/-- A text that begins with a statement is neither at its end nor at a semicolon. -/
theorem Reads.statement_first {p q : Parser} {s : Statement} {stack : List Term} (hp : p.Sound)
    (h : p.Reads s.symbols stack q) : p.isDone = false ∧ p.is .semicolon = false := by
  have hdone : p.isDone = false := by
    rw [← Bool.not_eq_true, isDone_iff hp, h.symbols]
    cases s <;> simp [Statement.symbols]
  have hsemicolon : p.is .semicolon = false := by
    rw [is_mark hp (by decide), Parser.next, h.symbols]
    exact s.not_semicolon _
  exact ⟨hdone, hsemicolon⟩

theorem statements_complete {n : Nat} {p q : Parser} (hp : p.Sound)
    (hstack : p.stack.head? ≠ some .builtinMarker) (hlength : p.tokens.length ≤ n) {d : Source}
    (h : p.ReadsAll d q) : statements n p = .ok q := by
  induction n generalizing p d with
  | zero =>
    have hnil : d.symbols = (Source.empty 0).symbols := by
      have hlen := h.reads.length_eq
      exact List.length_eq_zero_iff.1 (by omega)
    rw [Source.symbols_injective hnil, ReadsAll.empty_iff] at h
    rw [h.2]
    rfl
  | succ n ih =>
    rw [statements_succ]
    obtain rfl | ⟨d, rfl⟩ | ⟨s, rfl⟩ | ⟨s, d, rfl⟩ := Source.exists_eq d
    · obtain ⟨hdone, rfl⟩ := ReadsAll.empty_iff.1 h
      rw [if_pos ((isDone_iff hp).2 hdone)]
    · obtain ⟨hhead, hd⟩ := ReadsAll.delayed_iff.1 h
      have hmore : ¬ p.isDone = true := not_isDone hp hhead
      have hlt := advance_length_lt hhead
      rw [if_neg hmore, if_pos ((is_mark_iff hp (by decide)).2 hhead)]
      exact ih hp.advance hstack (by omega) hd
    · obtain ⟨hs, hdone⟩ := ReadsAll.single_iff.1 h
      obtain ⟨hmore, hsemicolon⟩ := hs.statement_first hp
      rw [hmore, hsemicolon, if_neg (by decide), if_neg (by decide), bind_eq_ok_iff]
      refine ⟨q, statement_obeys.complete s hp hstack hs (by rw [hdone]; rfl), ?_⟩
      rw [if_pos ((isDone_iff (hs.sound hp)).2 hdone)]
    · obtain ⟨m, hs, hhead, hd⟩ := ReadsAll.after_iff.1 h
      obtain ⟨hmore, hsemicolon⟩ := hs.statement_first hp
      have hm_sound := hs.sound hp
      have hm_stack : m.stack.head? ≠ some .builtinMarker := by
        rw [hs.stack_eq]
        exact statement_ne_builtinMarker s _
      have hm_ended : Ended m.symbols := by
        rw [Ended, Stops, hhead]
        rfl
      have hm_more : ¬ m.isDone = true := not_isDone hm_sound hhead
      have hlen := hs.length_eq
      have hlt := advance_length_lt hhead
      rw [hmore, hsemicolon, if_neg (by decide), if_neg (by decide), bind_eq_ok_iff]
      refine ⟨m, statement_obeys.complete s hp hstack hs hm_ended, ?_⟩
      rw [if_neg hm_more, bind_eq_ok_iff]
      refine ⟨m.advance, ?_, ih hm_sound.advance hm_stack (by omega) hd⟩
      refine (expect_obeys .semicolon (by decide)).complete () hm_sound
        trivial (reads_singleton_iff.2 ⟨hhead, rfl⟩) trivial

theorem collect_eq {p : Parser} (h : ∀ t ∈ p.stack, Finished t) :
    p.collect = (.ok p.stack.reverse, { p with stack := [] }) := by
  have hmark : p.stack.any isMark = false := by
    rw [List.any_eq_false]
    intro t ht
    rw [h t ht]
    decide
  rw [collect, hmark]
  rfl

theorem Source.terms_finished (d : Source) : ∀ t ∈ d.terms, Finished t := by
  cases d with
  | empty n =>
    intro t ht
    cases ht
  | of leading first more trailing =>
    rw [Source.terms, List.forall_mem_cons, List.forall_mem_map]
    exact ⟨Statement.finished first, fun s _ => Statement.finished s.2⟩

/-- Whatever is left can be read to its end. -/
theorem exists_reads (p : Parser) (stack : List Term) :
    ∃ q, p.Reads p.symbols stack q ∧ q.symbols = [] := by
  refine ⟨{ p with tokens := [], stack := stack }, ⟨?_, ?_⟩, rfl⟩
  · exact (List.append_nil _).symm
  · rw [symbols, List.length_map, List.drop_length]

theorem ReadsAll.symbols_eq {p q : Parser} {d : Source} (h : p.ReadsAll d q) :
    d.symbols = p.symbols := by
  rw [h.reads.symbols, h.done, List.append_nil]

/-- At the end of a text that a new parser reads, its declarations are on the stack. -/
theorem ReadsAll.collect_eq {p q : Parser} {d : Source} (h : p.ReadsAll d q)
    (hstack : p.stack = []) : q.collect.1 = .ok d.terms := by
  have hq : q.stack = d.terms.reverse := by
    rw [h.reads.stack_eq, hstack, List.append_nil]
  have hfinished : ∀ t ∈ q.stack, Finished t := by
    intro t ht
    rw [hq, List.mem_reverse] at ht
    exact Source.terms_finished d t ht
  rw [Parser.collect_eq hfinished, hq, List.reverse_reverse]

/-- A new parser reads the texts that the grammar derives, as what their derivations mean. -/
theorem readProgram_iff {p : Parser} (hp : p.Sound) (hstack : p.stack = []) {ts : List Term} :
    p.readProgram.1 = .ok ts ↔ ∃ d : Source, d.symbols = p.symbols ∧ d.terms = ts := by
  have hmarker : p.stack.head? ≠ some .builtinMarker := by simp [hstack]
  constructor
  · intro h
    rw [readProgram] at h
    split at h
    · rename_i q hq
      obtain ⟨d, hd⟩ := statements_sound hp hmarker (Nat.le_refl _) hq
      rw [hd.collect_eq hstack] at h
      exact ⟨d, hd.symbols_eq, Except.ok.inj h⟩
    · cases h
  · rintro ⟨d, hsymbols, rfl⟩
    obtain ⟨q, hreads, hdone⟩ := p.exists_reads (d.terms.reverse ++ p.stack)
    rw [← hsymbols] at hreads
    have hd : p.ReadsAll d q := ⟨hreads, hdone⟩
    rw [readProgram, statements_complete hp hmarker (Nat.le_refl _) hd]
    exact hd.collect_eq hstack

/-- Goes past a semicolon if there is one, and wants the text to end there. -/
def finishText : Step := fun p =>
  let p := if p.is .semicolon then p.advance else p
  if p.isDone then .ok p else p.unexpected

theorem finishText_iff {p q : Parser} (hp : p.Sound) :
    p.finishText = .ok q ↔
      ∃ semicolon : Bool, p.Reads (semicolons semicolon.toNat) p.stack q ∧ q.symbols = [] := by
  have hend : ∀ m : Parser, m.Sound →
      ((if m.isDone then .ok m else m.unexpected) = .ok q ↔ m = q ∧ q.symbols = []) := by
    intro m hm
    split
    · rename_i hdone
      rw [isDone_iff hm] at hdone
      constructor
      · rintro ⟨⟩
        exact ⟨rfl, hdone⟩
      · rintro ⟨rfl, -⟩
        rfl
    · rename_i hmore
      refine ⟨fun h => absurd h not_unexpected, ?_⟩
      rintro ⟨rfl, hdone⟩
      exact absurd ((isDone_iff hm).2 hdone) hmore
  have hskip : (∃ semicolon : Bool, p.Reads (semicolons semicolon.toNat) p.stack q ∧ q.symbols = [])
      ↔ (p = q ∧ q.symbols = []) ∨
        (p.symbols.head? = some (.mark .semicolon) ∧ p.advance = q ∧ q.symbols = []) := by
    rw [Bool.exists_bool]
    refine or_congr ?_ ?_
    · exact and_congr_left' (Reads.nil_iff.trans eq_comm)
    · rw [← and_assoc]
      exact and_congr_left' (reads_singleton_iff.trans (and_congr_right' eq_comm))
  rw [hskip, finishText]
  by_cases hsemicolon : p.is .semicolon = true
  · have hhead := (is_mark_iff hp (by decide)).1 hsemicolon
    rw [if_pos hsemicolon, hend _ hp.advance]
    constructor
    · exact fun h => .inr ⟨hhead, h⟩
    · rintro (⟨rfl, hnil⟩ | ⟨-, h⟩)
      · rw [hnil] at hhead
        cases hhead
      · exact h
  · rw [if_neg hsemicolon, hend _ hp]
    constructor
    · exact fun h => .inl h
    · rintro (h | ⟨hhead, -⟩)
      · exact h
      · exact absurd ((is_mark_iff hp (by decide)).2 hhead) hsemicolon

theorem wholeExpression_iff {p q : Parser} (hp : p.Sound) :
    p.wholeExpression = .ok q ↔ ∃ (e : Expression) (semicolon : Bool),
      p.Reads (e.symbols ++ semicolons semicolon.toNat) (e.term :: p.stack) q ∧ q.symbols = [] := by
  have hwhole : p.wholeExpression = p.expression >>= finishText := rfl
  rw [hwhole, bind_eq_ok_iff]
  constructor
  · rintro ⟨m, hm, hq⟩
    obtain ⟨e, he⟩ := expression_obeys.sound hp trivial hm
    obtain ⟨semicolon, hend, hdone⟩ := (finishText_iff (he.sound hp)).1 hq
    rw [he.stack_eq] at hend
    exact ⟨e, semicolon, (Reads.append_iff _).2 ⟨m, he, hend⟩, hdone⟩
  · rintro ⟨e, semicolon, hreads, hdone⟩
    obtain ⟨m, he, hend⟩ := (Reads.append_iff (e.term :: p.stack)).1 hreads
    have hstops : Stops continues m.symbols := by
      rw [hend.symbols, hdone, List.append_nil]
      cases semicolon <;> rfl
    refine ⟨m, expression_obeys.complete e hp trivial he hstops, ?_⟩
    rw [finishText_iff (he.sound hp), he.stack_eq]
    exact ⟨semicolon, hend, hdone⟩

/-- A new parser reads single expressions, with a semicolon behind them or not. -/
theorem readExpression_iff {p : Parser} (hp : p.Sound) (hstack : p.stack = []) {t : Term} :
    p.readExpression.1 = .ok t ↔ ∃ (e : Expression) (semicolon : Bool),
      e.symbols ++ semicolons semicolon.toNat = p.symbols ∧ e.term = t := by
  have hcollect : ∀ (q : Parser) (e : Expression), q.stack = e.term :: p.stack →
      q.collect = (.ok [e.term], { q with stack := [] }) := by
    intro q e hq
    rw [hstack] at hq
    have hfinished : ∀ t ∈ q.stack, Finished t := by
      rw [hq, List.forall_mem_singleton]
      exact Expression.finished e
    rw [collect_eq hfinished, hq]
    rfl
  constructor
  · intro h
    rw [readExpression] at h
    split at h
    · cases h
    · rename_i q hq
      obtain ⟨e, semicolon, hreads, hdone⟩ := (wholeExpression_iff hp).1 hq
      rw [hcollect q e hreads.stack_eq] at h
      refine ⟨e, semicolon, ?_, Except.ok.inj h⟩
      rw [hreads.symbols, hdone, List.append_nil]
  · rintro ⟨e, semicolon, hsymbols, rfl⟩
    obtain ⟨q, hreads, hdone⟩ := p.exists_reads (e.term :: p.stack)
    have hq := (wholeExpression_iff hp).2 ⟨e, semicolon, by rw [hsymbols]; exact hreads, hdone⟩
    rw [readExpression, hq]
    simp only [hcollect q e hreads.stack_eq]

/-- The parser accepts exactly the grammar and builds the tree of the derivation, of which there is
    only one; single expressions are read by the same rules, with a semicolon behind them or not. -/
theorem accepts_iff_derivable (file : String) (tokens : List Token) (stop : Token)
    (hstop : stop.kind = .eof) (htokens : ∀ t ∈ tokens, t.kind ≠ .eof) :
    (∀ ts, (Parser.mk file tokens stop []).readProgram.1 = .ok ts ↔
        ∃ d : Source, d.symbols = tokens.map Token.symbol ∧ d.terms = ts) ∧
      (∀ d d' : Source, d.symbols = tokens.map Token.symbol →
        d'.symbols = tokens.map Token.symbol → d = d') ∧
      (∀ t, (Parser.mk file tokens stop []).readExpression.1 = .ok t ↔
        ∃ (e : Expression) (semicolon : Bool),
          e.symbols ++ semicolons semicolon.toNat = tokens.map Token.symbol ∧ e.term = t) ∧
      ∀ (e e' : Expression) (semicolon semicolon' : Bool),
        e.symbols ++ semicolons semicolon.toNat = tokens.map Token.symbol →
        e'.symbols ++ semicolons semicolon'.toNat = tokens.map Token.symbol → e = e' := by
  have hp : (Parser.mk file tokens stop []).Sound := ⟨hstop, htokens⟩
  refine ⟨fun ts => readProgram_iff hp rfl, ?_, fun t => readExpression_iff hp rfl, ?_⟩
  · intro d d' hd hd'
    exact Source.symbols_injective (hd.trans hd'.symm)
  · intro e e' semicolon semicolon' he he'
    have hends : ∀ semicolon : Bool, Stops continues (semicolons semicolon.toNat) := by
      rintro (_ | _) <;> rfl
    exact (e.cuts e' _ _ (hends _) (hends _) (he.trans he'.symm)).1

/-- A clause, `> f _ (g a) = (a -> b) c`, with a semicolon behind it. -/
def clauseTokens : List Token :=
  let name (n : String) (column : Nat) : Token := ⟨.ident, Text.ofString n, column - 1, ⟨1, column⟩⟩
  let mark (kind : Token.Kind) (column : Nat) : Token := ⟨kind, [], column - 1, ⟨1, column⟩⟩
  [mark .rule 1, name "f" 3, mark .wildcard 5, mark .lparen 7, name "g" 8, name "a" 10,
    mark .rparen 11, mark .assign 13, mark .lparen 15, name "a" 16, mark .arrow 18, name "b" 21,
    mark .rparen 22, name "c" 24, mark .semicolon 25]

theorem accepts_iff_derivable_clause :
    (Parser.mk "" clauseTokens ⟨.eof, [], 25, ⟨1, 25⟩⟩ []).readProgram.1
      = .ok [.define (.app [.ident "f", .ident "_", .app [.ident "g", .ident "a"]])
          (.app [.group (.arrow [.ident "a", .ident "b"]), .ident "c"])] := by
  have hderives : (Source.of 0 (.clause "f" .wildcard
      [.paren (.of (.of (.name "g") [.name "a"]) [])]
      (.of (.of (.paren (.of (.of (.name "a") []) [.of (.name "b") []])) [.name "c"]) []))
      [] 1).symbols = clauseTokens.map Token.symbol := by
    decide
  exact ((accepts_iff_derivable "" clauseTokens _ rfl (by decide)).1 _).2 ⟨_, hderives, rfl⟩

end Clausal.Parser
