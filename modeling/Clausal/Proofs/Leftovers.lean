/-
  Clausal.Proofs.Leftovers

  A parser that is used again after a failure. What the failed calls left on the stack is still there
  when the next one begins, so the stack is accounted for by everything that was read since it was
  empty: whole statements, and parts of what was given up (`Parser.Piece`). A signature takes the
  mark of a builtin one for its own if it finds one below it, whether or not its statement put it
  there. It finds one exactly if the keyword was left open by a call before (`Parser.head?_stacked`).

    * `Parser.Known.after`: the stack is accounted for after any requests;
    * `Parser.declared_as_meant_iff`: what a call reads is what the statements mean exactly if no
      plain signature comes right behind a keyword that was left open.
-/
import Clausal.Proofs.Abandoned
import Clausal.Proofs.Spelling

namespace Clausal

open Grammar

/-! ## How statements end -/

/-- Whether a symbol ends an expression. -/
def Symbol.closes : Symbol → Bool
  | .name _ => true
  | .mark .rparen => true
  | _ => false

/-- Some symbols end like an expression. -/
def Closes (ws : List Symbol) : Prop := ws.getLast?.any Symbol.closes = true

namespace Closes

variable {ws ws' : List Symbol}

theorem append_left (h : Closes ws') (ws : List Symbol) : Closes (ws ++ ws') := by
  obtain ⟨w, hw, hcloses⟩ := (Option.any_eq_true _ _).1 h
  rw [Closes, List.getLast?_append, hw]
  exact hcloses

theorem flatMap {α : Type} {written : α → List Symbol} (h : Closes ws) (xs : List α)
    (hxs : ∀ x ∈ xs, Closes (written x)) : Closes (ws ++ xs.flatMap written) := by
  induction xs generalizing ws with
  | nil => rwa [List.flatMap_nil, List.append_nil]
  | cons x xs ih =>
    rw [List.forall_mem_cons] at hxs
    rw [List.flatMap_cons, ← List.append_assoc]
    exact ih (hxs.1.append_left ws) hxs.2

/-- Symbols that end like an expression leave no keyword open. -/
theorem not_leftOpen (h : Closes ws) (before : List Symbol) : leftOpen (before ++ ws) = false := by
  obtain ⟨w, hw, hcloses⟩ := (Option.any_eq_true _ _).1 h
  obtain ⟨ws, rfl⟩ := List.getLast?_eq_some_iff.1 hw
  have hidle : w.isIdle = false := by
    unfold Symbol.closes at hcloses
    split at hcloses
    · rfl
    · rfl
    · cases hcloses
  have hkeyword : w ≠ .keyword "builtin" := by
    rintro rfl
    cases hcloses
  rw [← List.append_assoc, leftOpen_append]
  simp [hidle, leftOpen_singleton hidle, hkeyword]

end Closes

namespace Grammar

theorem expressions_close : (∀ f : Factor, Closes f.symbols) ∧ (∀ p : Phrase, Closes p.symbols) ∧
    ∀ e : Expression, Closes e.symbols := by
  apply inductionOn
  · intro n
    rfl
  · intro e _
    have hparen : Closes [.mark .rparen] := rfl
    exact hparen.append_left (.mark .lparen :: e.symbols)
  · intro f fs hf hfs
    rw [Phrase.symbols, factorSymbols_eq_flatMap]
    exact hf.flatMap fs hfs
  · intro p ps hp hps
    rw [Expression.symbols, phraseSymbols_eq_flatMap]
    exact hp.flatMap ps fun x hx => (hps x hx).append_left [.mark .arrow]

theorem Expression.closes (e : Expression) : Closes e.symbols := expressions_close.2.2 e

theorem Constructor.closes (c : Constructor) : Closes c.symbols := by
  have hname : Closes [.name c.name] := rfl
  exact hname.flatMap c.args fun f _ => expressions_close.1 f

theorem Statement.closes (s : Statement) : Closes s.symbols := by
  cases s with
  | datatype n params cs =>
    have hname : Closes [.keyword "decltype", .name n] := rfl
    have hparams : Closes ([.keyword "decltype", .name n] ++ params.map Symbol.name) := by
      rw [List.map_eq_flatMap]
      exact hname.flatMap params fun _ _ => rfl
    cases cs with
    | nil =>
      rw [Statement.symbols, constructorSymbols, List.append_nil]
      exact hparams
    | cons c cs =>
      have hcs : Closes (c.symbols ++ cs.flatMap fun d => .mark .pipe :: d.symbols) :=
        c.closes.flatMap cs fun d _ => d.closes.append_left [.mark .pipe]
      have hall := hcs.append_left ([.keyword "decltype", .name n] ++ params.map .name
        ++ [.mark .assign])
      rwa [List.append_assoc, List.append_assoc] at hall
  | builtin n type =>
    exact type.closes.append_left [.keyword "builtin", .name n, .mark .colon]
  | signature n type => exact type.closes.append_left [.name n, .mark .colon]
  | clause n first more body =>
    have hall := body.closes.append_left ([.mark .rule, .name n]
      ++ (first :: more).flatMap Parameter.symbols ++ [.mark .assign])
    rwa [List.append_assoc, List.append_assoc] at hall

end Grammar

namespace Parser

/-! ## Pieces -/

/-- What was put on the stack at once: by a whole statement, or by a part of what was given up. -/
inductive Piece where
  | statement (s : Statement)
  | part (x : Part)

namespace Piece

def symbols : Piece → List Symbol
  | .statement s => s.symbols
  | .part x => x.symbols

/-- The terms that a piece stands for, the last one first. A statement stands for what it means. -/
def terms : Piece → List Term
  | .statement s => [s.term]
  | .part x => x.terms

end Piece

/-- The symbols of some pieces, the latest of which comes first. -/
def written : List Piece → List Symbol
  | [] => []
  | x :: earlier => written earlier ++ x.symbols

/-- The stack when some pieces have been read, the latest of which comes first. -/
def stacked : List Piece → List Term
  | [] => []
  | .statement s :: earlier => declared (stacked earlier) s
  | .part x :: earlier => x.terms ++ stacked earlier

/-- No plain signature comes right behind a keyword that was left open. -/
def Undisturbed : List Piece → Prop
  | [] => True
  | .statement (.signature _ _) :: earlier =>
    leftOpen (written earlier) = false ∧ Undisturbed earlier
  | _ :: earlier => Undisturbed earlier

/-- What a statement puts on the stack is a declaration and no mark. -/
theorem head?_declared (stack : List Term) (s : Statement) :
    (declared stack s).head? ≠ some .builtinMarker := by
  unfold declared
  split
  · exact statement_ne_builtinMarker (.builtin _ _) _
  · exact statement_ne_builtinMarker s _

/-- The mark of a builtin signature is on top exactly if its keyword was left open. -/
theorem head?_stacked (ps : List Piece) :
    (stacked ps).head? = some .builtinMarker ↔ leftOpen (written ps) = true := by
  induction ps with
  | nil => simp [stacked, written, leftOpen]
  | cons x earlier ih =>
    cases x with
    | statement s =>
      rw [stacked, written, Piece.symbols, s.closes.not_leftOpen]
      simp [head?_declared]
    | part x => exact x.head?_append_iff ih

/-- The stack holds what the pieces stand for exactly if they are undisturbed. -/
theorem stacked_eq_iff (ps : List Piece) : stacked ps = ps.flatMap Piece.terms ↔ Undisturbed ps := by
  induction ps with
  | nil => simp [stacked, Undisturbed]
  | cons x earlier ih =>
    rw [List.flatMap_cons]
    cases x with
    | part x => exact (List.append_right_inj x.terms).trans ih
    | statement s =>
      rw [stacked, Piece.terms, List.singleton_append]
      cases s with
      | signature n type =>
        rw [Undisturbed]
        by_cases hopen : leftOpen (written earlier) = true
        · -- The mark below makes a builtin signature of it.
          obtain ⟨below, hbelow⟩ := List.head?_eq_some_iff.1 ((head?_stacked earlier).2 hopen)
          simp [hbelow, declared, Statement.term, hopen]
        · rw [declared_of_ne (mt (head?_stacked earlier).1 hopen), List.cons_inj_right, ih]
          simp [hopen]
      | _ =>
        rw [declared_of_ne_signature _ (by simp), List.cons_inj_right]
        exact ih

/-! ## Accounting for the stack -/

/-- A parser of some text has come to its stack by the given pieces. -/
structure Accounts (whole : List Symbol) (ps : List Piece) (p : Parser) : Prop where
  sound : p.Sound
  symbols : ∃ before, whole = before ++ written ps ++ p.symbols
  stack : p.stack = stacked ps

/-- The stack of a parser of some text is accounted for. -/
def Known (whole : List Symbol) (p : Parser) : Prop := ∃ ps, Accounts whole ps p

variable {whole : List Symbol} {p q : Parser}

theorem Accounts.reads {ps : List Piece} (h : Accounts whole ps p) (x : Piece)
    (hreads : p.Reads x.symbols (stacked (x :: ps)) q) : Accounts whole (x :: ps) q where
  sound := hreads.sound h.sound
  symbols := by
    obtain ⟨before, hbefore⟩ := h.symbols
    refine ⟨before, ?_⟩
    rw [hbefore, hreads.symbols, written]
    simp only [List.append_assoc]
  stack := hreads.stack_eq

theorem Known.sound (h : Known whole p) : p.Sound := by
  obtain ⟨ps, hps⟩ := h
  exact hps.sound

/-- What was given up is one more part. -/
theorem Known.owns {k : Nat} (h : Known whole p) (hq : p.Owns k q) : Known whole q := by
  obtain ⟨ps, hps⟩ := h
  obtain ⟨x, -, -, hreads, -⟩ := hq.part
  refine ⟨.part x :: ps, hps.reads (.part x) ?_⟩
  rw [stacked, ← hps.stack]
  exact hreads

/-- A step keeps the stack accounted for, whether or not it fails. -/
structure Tracks (step : Step) : Prop where
  done : ∀ {whole : List Symbol} {p q : Parser}, Known whole p → step p = .ok q → Known whole q
  lost : ∀ {whole : List Symbol} {p : Parser} {f : Failure}, Known whole p → step p = .error f →
    Known whole f.left

namespace Tracks

variable {step step' : Step}

theorem of_yields {k : Nat} (h : Yields always 0 step k) : Tracks step where
  done hp hstep := hp.owns (h.done (.refl hp.sound) trivial hstep)
  lost hp hstep := hp.owns (h.lost (.refl hp.sound) trivial hstep)

theorem ok : Tracks fun p => .ok p where
  done hp hstep := by
    cases hstep
    exact hp
  lost _ hstep := by cases hstep

theorem bind (h : Tracks step) (h' : Tracks step') : Tracks fun p => step p >>= step' where
  done hp hstep := by
    obtain ⟨m, hm, hq⟩ := bind_eq_ok_iff.1 hstep
    exact h'.done (h.done hp hm) hq
  lost hp hstep := by
    rcases bind_eq_error_iff.1 hstep with hf | ⟨m, hm, hf⟩
    · exact h.lost hp hf
    · exact h'.lost (h.done hp hm) hf

theorem ite {test : Parser → Bool} (h : Tracks step) (h' : Tracks step') :
    Tracks fun p => if test p then step p else step' p where
  done hp hstep := by
    split at hstep
    · exact h.done hp hstep
    · exact h'.done hp hstep
  lost hp hstep := by
    split at hstep
    · exact h.lost hp hstep
    · exact h'.lost hp hstep

end Tracks

theorem statement_tracks : Tracks statement where
  done {_ p q} hp hstep := by
    obtain ⟨ps, hps⟩ := hp
    obtain ⟨s, hs⟩ := statement_reads hps.sound hstep
    refine ⟨.statement s :: ps, hps.reads (.statement s) ?_⟩
    rw [stacked, ← hps.stack]
    exact hs
  lost hp hstep := hp.owns (statement_lost hp.sound hstep)

theorem semicolon_tracks : Tracks (expect .semicolon) := by
  refine .of_yields (k := 0) (.ite (is .semicolon) (.of_ok fun hp his => ⟨_, rfl, ?_⟩) .unexpected)
  exact hp.idle rfl ((is_mark_iff hp.sound (by decide)).1 his)

theorem statements_tracks (n : Nat) : Tracks (statements n) := by
  induction n with
  | zero => exact .ok
  | succ n ih =>
    have hrest := semicolon_tracks.bind ih
    -- A semicolon that is there is expected, so both ways of going past one are the same.
    have hstep : statements (n + 1) = fun p =>
        if p.isDone then .ok p
        else if p.is .semicolon then p.expect .semicolon >>= statements n
        else p.statement >>= fun p =>
          if p.isDone then .ok p else p.expect .semicolon >>= statements n := by
      funext p
      rw [statements_succ]
      by_cases his : p.is .semicolon = true
      · simp [his, expect, Bind.bind, Except.bind]
      · simp [his]
    rw [hstep]
    exact Tracks.ok.ite (hrest.ite (statement_tracks.bind (Tracks.ok.ite hrest)))

theorem wholeExpression_tracks : Tracks wholeExpression := by
  have hend : Yields always 1 (fun p => if p.isDone then .ok p else p.unexpected) 1 :=
    .ite isDone .ok .unexpected
  have hfinish : Yields always 1 finishText 1 := by
    refine hend.after (fun p => if p.is .semicolon then p.advance else p) fun hp _ => ?_
    split
    · rename_i his
      exact hp.idle rfl ((is_mark_iff hp.sound (by decide)).1 his)
    · exact hp
  exact .of_yields (expression_yields.bind hfinish)

/-! ## Requests -/

/-- What a parser may be asked for. -/
inductive Request where
  | program
  | expression
  deriving DecidableEq, Repr

/-- The parser after a request, whether or not it could be met. -/
def serve (p : Parser) : Request → Parser
  | .program => p.readProgram.2
  | .expression => p.readExpression.2

/-- The parser after some requests. -/
def after (p : Parser) (requests : List Request) : Parser := requests.foldl serve p

namespace Known

/-- Everything that is taken off the stack leaves nothing to account for. -/
theorem collected (h : Known whole p) : Known whole p.collect.2 := by
  obtain ⟨ps, hps⟩ := h
  rw [collect]
  split
  · exact ⟨ps, hps⟩
  · obtain ⟨before, hbefore⟩ := hps.symbols
    refine ⟨[], ⟨hps.sound.stop, hps.sound.inner⟩, ⟨before ++ written ps, ?_⟩, rfl⟩
    rw [hbefore, written, List.append_nil]
    rfl

theorem serve (h : Known whole p) (request : Request) : Known whole (p.serve request) := by
  cases request with
  | program =>
    rw [Parser.serve, readProgram]
    split
    · rename_i q hq
      exact ((statements_tracks _).done h hq).collected
    · rename_i f hf
      exact (statements_tracks _).lost h hf
  | expression =>
    rw [Parser.serve, readExpression]
    split
    · rename_i f hf
      exact wholeExpression_tracks.lost h hf
    · rename_i q hq
      have hcollected := (wholeExpression_tracks.done h hq).collected
      split
      · rename_i hcollect
        rwa [hcollect] at hcollected
      · rename_i hcollect
        rwa [hcollect] at hcollected
      · rename_i hcollect
        rwa [hcollect] at hcollected

/-- The stack is accounted for after any requests. -/
theorem after (h : Known whole p) (requests : List Request) : Known whole (p.after requests) := by
  induction requests generalizing p with
  | nil => exact h
  | cons request requests ih => exact ih (h.serve request)

end Known

theorem known_ofText (t : Text) (file : String) :
    Known t.dropMark.symbols (Parser.ofText t file) :=
  ⟨[], ofText_sound t file, ⟨[], rfl⟩, rfl⟩

/-- Statements are read to the end of the text, whatever is on the stack. -/
theorem statements_done {n : Nat} (hp : p.Sound) (hlength : p.tokens.length ≤ n)
    (h : statements n p = .ok q) : q.symbols = [] := by
  induction n generalizing p with
  | zero =>
    cases h
    rw [symbols, List.length_eq_zero_iff.1 (Nat.le_zero.1 hlength), List.map_nil]
  | succ n ih =>
    rw [statements_succ] at h
    split at h
    · rename_i hdone
      cases h
      exact (isDone_iff hp).1 hdone
    · split at h
      · rename_i hsemicolon
        have hlt := advance_length_lt ((is_mark_iff hp (by decide)).1 hsemicolon)
        exact ih hp.advance (by omega) h
      · obtain ⟨m, hm, h⟩ := bind_eq_ok_iff.1 h
        obtain ⟨s, hs⟩ := statement_reads hp hm
        have hm_sound := hs.sound hp
        split at h
        · rename_i hdone
          cases h
          exact (isDone_iff hm_sound).1 hdone
        · obtain ⟨m', hm', h⟩ := bind_eq_ok_iff.1 h
          obtain ⟨-, hm'⟩ := (expect_obeys .semicolon (by decide)).sound hm_sound trivial hm'
          obtain ⟨hhead, rfl⟩ := reads_singleton_iff.1 hm'
          have hlen := hs.length_eq
          have hlt := advance_length_lt hhead
          have hm_length : m.advance.tokens.length ≤ n := by omega
          exact ih hm_sound.advance hm_length h

/-- **A failed call disturbs a later one by an open keyword only.** Whatever a parser was asked for
    before, what it reads as the declarations of a text is put together from the pieces that were
    read since its stack was empty: the declaration of each statement, and the terms of what was given
    up. It is what the statements mean, a builtin signature for those that begin with the keyword and
    for no others, exactly if no plain signature comes right behind a keyword that was left open. -/
theorem declared_as_meant_iff (t : Text) (file : String) (requests : List Request) {ts : List Term}
    (h : ((Parser.ofText t file).after requests).readProgram.1 = .ok ts) :
    ∃ before ps, t.dropMark.symbols = before ++ written ps ∧ ts = (stacked ps).reverse ∧
      (ts = (ps.flatMap Piece.terms).reverse ↔ Undisturbed ps) := by
  have hknown := (known_ofText t file).after requests
  rw [readProgram] at h
  split at h
  · rename_i q hq
    have hdone := statements_done hknown.sound (Nat.le_refl _) hq
    obtain ⟨ps, hps⟩ := (statements_tracks _).done hknown hq
    obtain ⟨before, hbefore⟩ := hps.symbols
    rw [hdone, List.append_nil] at hbefore
    have hts : ts = (stacked ps).reverse := by
      rw [collect] at h
      split at h
      · cases h
      · cases h
        rw [hps.stack]
    refine ⟨before, ps, hbefore, hts, ?_⟩
    rw [hts, List.reverse_inj, stacked_eq_iff]
  · cases h

/-- A call ends with an error where a semicolon is missing, and the next one takes it up there. -/
theorem declared_as_meant_iff_unseparated :
    ((Parser.ofText (Text.ofString "f : t > g X = X") "").after [.program]).readProgram.1
        = .ok [.isa (.ident "f") (.ident "t"),
            .define (.app [.ident "g", .ident "X"]) (.ident "X")] ∧
      ∃ before ps, (Text.ofString "f : t > g X = X").dropMark.symbols = before ++ written ps ∧
        [Term.isa (.ident "f") (.ident "t"), .define (.app [.ident "g", .ident "X"]) (.ident "X")]
          = (stacked ps).reverse := by
  have hread : ((Parser.ofText (Text.ofString "f : t > g X = X") "").after [.program]).readProgram.1
      = .ok [.isa (.ident "f") (.ident "t"),
          .define (.app [.ident "g", .ident "X"]) (.ident "X")] := by
    decide +kernel
  obtain ⟨before, ps, hsymbols, hts, -⟩ := declared_as_meant_iff _ _ _ hread
  exact ⟨hread, before, ps, hsymbols, hts⟩

/-- The keyword is left open by a first call. The signature that a second call finds behind the
    semicolon is read as a builtin one, although its statement has no keyword. -/
theorem open_keyword_taken_up :
    (Parser.ofText (Text.ofString "builtin ; f : t") "").readProgram.1.isOk = false ∧
      parseProgram (Text.ofString "; f : t") "" = .ok [.isa (.ident "f") (.ident "t")] ∧
      ((Parser.ofText (Text.ofString "builtin ; f : t") "").after [.program]).tokens.map Token.symbol
        = (Text.ofString "; f : t").symbols ∧
      ((Parser.ofText (Text.ofString "builtin ; f : t") "").after [.program]).readProgram.1
        = .ok [.builtin (.ident "f") (.ident "t")] := by
  decide +kernel

end Parser

end Clausal
