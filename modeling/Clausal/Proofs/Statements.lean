/-
  Clausal.Proofs.Statements

  Each kind of statement is read by its rule (`Parser.statement_obeys`), and so are expressions
  (`Parser.expression_obeys`). Nesting is bounded by the number of tokens, and so is the induction
  on expressions. What a statement leaves on the stack is found again by the marker below it, since
  no part of a statement is a mark (`Parser.Finished`).
-/
import Clausal.Proofs.Reading

namespace Clausal.Parser

open Grammar

/-! ## Expressions -/

/-- A sequence of the kind grows by a term; any other term begins one. -/
def extend (kind : Term.Sequence) (first last : Term) : Term :=
  match first with
  | .seq k elems => if k = kind then .seq kind (elems ++ [last]) else .seq kind [.seq k elems, last]
  | t => .seq kind [t, last]

/-- The second term of a stack grows by the first. -/
def extending {δ : Type} (kind : Term.Sequence) (term : δ → Term) (s : List Term) (d : δ) :
    List Term :=
  match s with
  | [] => []
  | t :: s => extend kind t (term d) :: s

theorem compose_eq {p : Parser} {last first : Term} {rest : List Term}
    (h : p.stack = last :: first :: rest) :
    p.compose = .ok { p with stack := extend .application first last :: rest } := by
  rw [compose, h]
  cases first with
  | seq k elems => cases k <;> rfl
  | _ => rfl

theorem chain_eq {p : Parser} {last first : Term} {rest : List Term}
    (h : p.stack = last :: first :: rest) :
    p.chain = .ok { p with stack := extend .arrow first last :: rest } := by
  rw [chain, h]
  cases first with
  | seq k elems => cases k <;> rfl
  | _ => rfl

theorem foldl_extending_seq {δ : Type} {kind : Term.Sequence} {term : δ → Term}
    (elems s : List Term) (ds : List δ) :
    ds.foldl (extending kind term) (.seq kind elems :: s)
      = .seq kind (elems ++ ds.map term) :: s := by
  induction ds generalizing elems with
  | nil => simp
  | cons d ds ih =>
    rw [List.foldl_cons, extending, extend, if_pos rfl, ih, List.map_cons, List.append_assoc,
      List.singleton_append]

/-- Terms that are added one by one make one flat sequence, unless the first is a sequence of the
    kind already. -/
theorem foldl_extending {δ : Type} {kind : Term.Sequence} {term : δ → Term} {t : Term}
    (ht : ∀ elems, t ≠ .seq kind elems) (s : List Term) (ds : List δ) :
    ds.foldl (extending kind term) (t :: s) = joined kind t (ds.map term) :: s := by
  cases ds with
  | nil => rfl
  | cons d ds =>
    have hextend : extend kind t (term d) = .seq kind [t, term d] := by
      cases t with
      | seq k elems =>
        have hk : k ≠ kind := by
          rintro rfl
          exact ht elems rfl
        rw [extend, if_neg hk]
      | _ => rfl
    rw [List.foldl_cons, extending, hextend, foldl_extending_seq]
    rfl

theorem Factor.term_ne_seq (f : Factor) (kind : Term.Sequence) (elems : List Term) :
    f.term ≠ .seq kind elems := by
  cases f <;> simp [Grammar.Factor.term]

theorem Phrase.term_ne_arrow (p : Phrase) (elems : List Term) : p.term ≠ .arrow elems := by
  obtain ⟨f, fs⟩ := p
  rw [Phrase.term, joined]
  split
  · exact Factor.term_ne_seq f _ _
  · simp

/-- A stack that has something on it keeps it while it grows. -/
theorem extending_inv {δ : Type} {kind : Term.Sequence} {term : δ → Term} {d : δ}
    {p q : Parser} {ws : List Symbol} {n : Nat} (hp : p.tokens.length ≤ n ∧ p.stack ≠ [])
    (hreads : p.Reads ws (extending kind term p.stack d) q) :
    q.tokens.length ≤ n ∧ q.stack ≠ [] := by
  have hlength := hreads.length_eq
  refine ⟨by omega, ?_⟩
  obtain ⟨t, s, hs⟩ := List.exists_cons_of_ne_nil hp.2
  rw [hreads.stack_eq, hs]
  exact List.cons_ne_nil _ _

section

variable {inner : Step} {n : Nat}
  (hinner : Obeys inner (fun p => p.tokens.length ≤ n) Expression.symbols
    (pushing Expression.term) (Stops continues))

include hinner

/-- An expression, the parenthesis behind it, and the group that they make. -/
theorem enclosed_obeys :
    Obeys (fun p => inner p >>= fun p => p.expect .rparen >>= fun p => p.enclose)
      (fun p => p.tokens.length ≤ n) (fun e : Expression => e.symbols ++ [.mark .rparen])
      (pushing fun e => .group e.term) always := by
  have hclose := expect_obeys .rparen (by decide)
  have hread := hinner.bind hclose (fun _ _ _ _ _ => trivial) (fun _ _ _ => rfl)
  have hgroup := hread.finish enclose (fun s d => .group d.1.term :: s) (by
    intro p q d _ hq
    rw [enclose, hq]
    rfl)
  have hall := hgroup.map (fun e : Expression => e.symbols ++ [.mark .rparen])
    (pushing fun e => .group e.term) Prod.fst (fun e => (e, ())) (fun _ => rfl)
    (fun _ => rfl) (fun _ _ => rfl)
  simpa only [bind_assoc] using hall

theorem paren_obeys :
    Obeys (fun p => inner p.advance >>= fun p => p.expect .rparen >>= fun p => p.enclose)
      (fun p => p.tokens.length ≤ n + 1 ∧ p.is .lparen = true)
      (fun e : Expression => .mark .lparen :: (e.symbols ++ [.mark .rparen]))
      (pushing fun e => .group e.term) always := by
  refine (enclosed_obeys hinner).advance _ _ ?_ ?_
  · rintro p hp ⟨-, hparen⟩
    exact (is_mark_iff hp (by decide)).1 hparen
  · rintro p ⟨hlength, -⟩
    show p.tokens.tail.length ≤ n
    rw [List.length_tail]
    omega

theorem factorWith_obeys :
    Obeys (factorWith inner) (fun p => p.tokens.length ≤ n + 1) Factor.symbols
      (pushing Factor.term) always where
  sound := by
    intro p q hp hlength hstep
    rw [factorWith] at hstep
    split at hstep
    · obtain ⟨name, hname⟩ := identifier_obeys.sound hp trivial hstep
      exact ⟨.name name, hname⟩
    · split at hstep
      · rename_i hparen
        obtain ⟨e, he⟩ := (paren_obeys hinner).sound hp ⟨hlength, hparen⟩ hstep
        exact ⟨.paren e, he⟩
      · exact absurd hstep not_unexpected
  complete := by
    intro p q d hp hlength hreads _
    rw [factorWith]
    cases d with
    | name name =>
      have hident := ((head?_eq_name_iff hp).1 (Reads.cons_iff.1 hreads).1).1
      rw [if_pos hident]
      exact identifier_obeys.complete name hp trivial hreads trivial
    | paren e =>
      have hhead : p.symbols.head? = some (.mark .lparen) := (Reads.cons_iff.1 hreads).1
      have hident : p.is .ident = false := by
        rw [is_ident hp, next, hhead]
        rfl
      have hparen : p.is .lparen = true :=
        (is_mark_iff hp (by decide)).2 hhead
      rw [if_neg (by rw [hident]; decide), if_pos hparen]
      exact (paren_obeys hinner).complete e hp ⟨hlength, hparen⟩ hreads trivial

/-- Factors behind a term that is on the stack. -/
theorem factorsWith_obeys :
    Obeys (factorsWith inner) (fun p => p.tokens.length ≤ n + 1 ∧ p.stack ≠ [])
      (List.flatMap Factor.symbols) (List.foldl (extending .application Factor.term))
      (Stops opensFactor) := by
  have hfactor : Obeys (factorWith inner)
      (fun p => (p.tokens.length ≤ n + 1 ∧ p.stack ≠ []) ∧ p.isFactor = true) Factor.symbols
      (pushing Factor.term) always :=
    (factorWith_obeys hinner).mono (fun p hp => hp.1.1) (fun _ h => h)
  have hbody := hfactor.finish compose (extending .application Factor.term) (by
    rintro p q f ⟨⟨-, hstack⟩, -⟩ hq
    obtain ⟨t, s, hs⟩ := List.exists_cons_of_ne_nil hstack
    rw [hs] at hq ⊢
    exact compose_eq hq)
  have hmany := hbody.many (fun p hp => isFactor_eq hp) Factor.opens (fun _ _ => trivial)
    (fun p f q hp hreads => extending_inv hp hreads)
  exact hmany.mono (fun _ hp => hp) (fun _ hr => ⟨trivial, hr⟩)

theorem termWith_obeys :
    Obeys (termWith inner) (fun p => p.tokens.length ≤ n + 1) Phrase.symbols
      (pushing Phrase.term) (Stops opensFactor) := by
  have hread := (factorWith_obeys hinner).bind (factorsWith_obeys hinner) (by
    intro p f q hlength hreads
    have := hreads.length_eq
    refine ⟨by omega, ?_⟩
    rw [hreads.stack_eq]
    exact List.cons_ne_nil _ _) (fun _ _ _ => trivial)
  refine hread.map Phrase.symbols (pushing Phrase.term) (fun d => .of d.1 d.2) Phrase.parts
    ?_ ?_ ?_
  · rintro ⟨f, fs⟩
    rfl
  · rintro ⟨f, fs⟩
    rw [Phrase.symbols, factorSymbols_eq_flatMap]
  · rintro s ⟨f, fs⟩
    rw [pushing, pushing, Phrase.term, factorTerms_eq_map,
      foldl_extending (Factor.term_ne_seq f .application)]

theorem expressionWith_obeys :
    Obeys (expressionWith inner) (fun p => p.tokens.length ≤ n + 1) Expression.symbols
      (pushing Expression.term) (Stops continues) := by
  have hphrase := (termWith_obeys hinner).advance (.mark .arrow)
    (fun p => (p.tokens.length ≤ n + 1 ∧ p.stack ≠ []) ∧ p.is .arrow = true)
    (fun p hp hpre => (is_mark_iff hp (by decide)).1 hpre.2)
    (fun p hpre => advance_length_le hpre.1.1)
  have hbody := hphrase.finish chain (extending .arrow Phrase.term) (by
    rintro p q f ⟨⟨-, hstack⟩, -⟩ hq
    obtain ⟨t, s, hs⟩ := List.exists_cons_of_ne_nil hstack
    rw [hs] at hq ⊢
    exact chain_eq hq)
  -- An arrow begins no factor, so it ends the phrase before it.
  have harrow : ∀ (p : Phrase) r, Stops opensFactor (.mark .arrow :: p.symbols ++ r) :=
    fun _ _ => rfl
  have hmany := hbody.many (fun p hp => is_mark hp (by decide))
    (fun _ _ => rfl) harrow (fun p f q hp hreads => extending_inv hp hreads)
  have hread := (termWith_obeys hinner).bind hmany (by
    intro p f q hlength hreads
    have := hreads.length_eq
    refine ⟨by omega, ?_⟩
    rw [hreads.stack_eq]
    exact List.cons_ne_nil _ _) (fun ps r hr => stop_flatMap harrow ps hr.1)
  have hall := hread.map Expression.symbols (pushing Expression.term) (fun d => .of d.1 d.2)
    Expression.parts (by
      rintro ⟨p, ps⟩
      rfl) (by
      rintro ⟨p, ps⟩
      rw [Expression.symbols, phraseSymbols_eq_flatMap]) (by
      rintro s ⟨p, ps⟩
      rw [pushing, pushing, Expression.term, phraseTerms_eq_map,
        foldl_extending (Phrase.term_ne_arrow p)])
  exact hall.mono (fun _ hp => hp) (fun r hr => ⟨hr.opensFactor, hr.arrow⟩)

end

theorem expressionWithin_obeys (n : Nat) :
    Obeys (expressionWithin n) (fun p => p.tokens.length ≤ n) Expression.symbols
      (pushing Expression.term) (Stops continues) := by
  induction n with
  | zero =>
    refine ⟨?_, ?_⟩
    · intro p q _ _ hstep
      exact absurd hstep not_unexpected
    · intro p q e hp hlength hreads _
      -- An expression takes at least one token.
      obtain ⟨⟨f, fs⟩, ps⟩ := e
      have := hreads.length_eq
      have hfirst : 0 < f.symbols.length := by cases f <;> simp [Factor.symbols]
      simp only [Expression.symbols, Phrase.symbols, List.length_append] at this
      omega
  | succ n ih => exact expressionWith_obeys ih

theorem expression_obeys :
    Obeys expression always Expression.symbols (pushing Expression.term) (Stops continues) where
  sound {p} _ hp _ := (expressionWithin_obeys p.tokens.length).sound hp (Nat.le_refl _)
  complete {p} _ e hp _ := (expressionWithin_obeys p.tokens.length).complete e hp (Nat.le_refl _)

/-! ## What is on the stack -/

/-- A term that is no mark on the stack. -/
def Finished (t : Term) : Prop := isMark t = false

theorem Finished.of_formed {names : String → Prop} {least : Nat} {t : Term}
    (h : t.Formed names least) : Finished t := by
  cases h <;> rfl

theorem Expression.finished (e : Expression) : Finished e.term := by
  have hformed : e.term.Formed (fun _ => True) 2 := e.term_formed fun _ _ => trivial
  exact .of_formed hformed

theorem Parameter.finished (x : Parameter) : Finished x.term := by
  cases x with
  | wildcard => rfl
  | name n => rfl
  | paren e => exact Expression.finished e

theorem Statement.finished (s : Statement) : Finished s.term := by
  cases s <;> rfl

/-- The terms above a marker are found in the order in which they were pushed. -/
theorem sinceMarker_eq {ts : List Term} (h : ∀ t ∈ ts, Finished t) (above s : List Term) :
    sinceMarker above (ts ++ .marker :: s) = some (ts.reverse ++ above, s) := by
  induction ts generalizing above with
  | nil => rfl
  | cons t ts ih =>
    rw [List.forall_mem_cons] at h
    have hstep : sinceMarker above (t :: ts ++ .marker :: s)
        = sinceMarker (t :: above) (ts ++ .marker :: s) := by
      have ht := h.1
      cases t <;> first | rfl | cases ht
    rw [hstep, ih h.2, List.reverse_cons, List.append_assoc, List.singleton_append]

/-! ## Types -/

theorem constructor_obeys :
    Obeys constructor always Constructor.symbols (pushing Constructor.term)
      (Stops opensFactor) := by
  have hargs : Obeys (factorsWith expression) (fun p => p.stack ≠ [])
      (List.flatMap Factor.symbols) (List.foldl (extending .application Factor.term))
      (Stops opensFactor) :=
    .unbounded fun n => factorsWith_obeys (expression_obeys.mono (fun _ _ => trivial)
      (fun _ h => h))
  have hread := identifier_obeys.bind hargs (by
    intro p name q _ hreads
    rw [hreads.stack_eq]
    exact List.cons_ne_nil _ _) (fun _ _ _ => trivial)
  have hfinish := hread.finish finishConstructor
    (fun s d => Constructor.term ⟨d.1, d.2⟩ :: s) (by
      rintro p q ⟨name, args⟩ _ hq
      rw [pushing, foldl_extending (by simp)] at hq
      rw [finishConstructor, hq]
      -- A name alone is made an application, and with arguments it is one.
      cases args <;> rfl)
  have hall := hfinish.map Constructor.symbols (pushing Constructor.term)
    (fun d => ⟨d.1, d.2⟩) (fun c => (c.name, c.args)) (fun _ => rfl) (fun _ => rfl)
    (fun _ _ => rfl)
  simp only [bind_assoc] at hall
  exact hall

/-- The constructors behind the sign that begins them. -/
theorem constructors_obeys :
    Obeys constructors (fun p => p.is .assign = true)
      (fun d : Constructor × List Constructor => constructorSymbols (d.1 :: d.2))
      (fun s d => (d.1 :: d.2).foldl (pushing Constructor.term) s) Ended := by
  have hpipe : ∀ (c : Constructor) r, Stops opensFactor (.mark .pipe :: c.symbols ++ r) :=
    fun _ _ => rfl
  have hbody := constructor_obeys.advance (.mark .pipe)
    (fun p => always p ∧ p.is .pipe = true)
    (fun p hp hpre => (is_mark_iff hp (by decide)).1 hpre.2)
    (fun _ _ => trivial)
  have hmore := hbody.many (fun p hp => is_mark hp (by decide))
    (fun _ _ => rfl) hpipe (fun _ _ _ _ _ => trivial)
  have hread := (constructor_obeys.bind hmore (fun _ _ _ _ _ => trivial)
    (fun cs r hr => stop_flatMap hpipe cs hr.1)).advance (.mark .assign)
    (fun p => p.is .assign = true)
    (fun p hp hpre => (is_mark_iff hp (by decide)).1 hpre)
    (fun _ _ => trivial)
  exact hread.mono (fun _ hp => hp) (fun r hr => ⟨hr.stops rfl, hr.stops rfl⟩)

/-- A type may have no constructors, and then there is no sign either. -/
theorem constructors?_obeys :
    Obeys (fun p => if p.is .assign then constructors p else .ok p) always constructorSymbols
      (List.foldl (pushing Constructor.term)) Ended where
  sound := by
    intro p q hp _ hstep
    split at hstep
    · rename_i hassign
      obtain ⟨⟨c, cs⟩, hread⟩ := constructors_obeys.sound hp hassign hstep
      exact ⟨c :: cs, hread⟩
    · cases hstep
      exact ⟨[], Reads.nil_iff.2 rfl⟩
  complete := by
    intro p q cs hp _ hreads hq
    rw [is_mark hp (by decide)]
    cases cs with
    | nil =>
      have hp_eq := Reads.nil_iff.1 hreads
      have hassign : p.next (· == .mark .assign) = false := by
        rw [hp_eq] at hq
        exact hq.stops rfl
      rw [if_neg (by rw [hassign]; decide), hp_eq]
      rfl
    | cons c cs =>
      have hassign : p.next (· == .mark .assign) = true := hreads.next fun _ => rfl
      rw [if_pos hassign]
      refine constructors_obeys.complete (c, cs) hp ?_ hreads hq
      rw [is_mark hp (by decide), hassign]

/-- The name, the parameters and the constructors of a type, above a marker. -/
def typeParts : Step := fun p =>
  (p.advance.push .marker).identifier >>= many (is .ident) identifier >>= fun p =>
    if p.is .assign then constructors p else .ok p

theorem typeDeclaration_eq (p : Parser) : p.typeDeclaration = p.typeParts >>= finishType := by
  simp only [typeDeclaration, typeParts, bind_assoc]
  congr
  funext p
  congr
  funext p
  split <;> rfl

/-- Above its marker a type leaves its name, its parameters and its constructors. -/
theorem exists_typeStack (n : String) (params : List String) (cs : List Constructor)
    (s : List Term) : ∃ ts : List Term,
      cs.foldl (pushing Constructor.term) (params.foldl (pushing .ident) (.ident n :: .marker :: s))
          = ts ++ .marker :: s ∧
        (∀ t ∈ ts, Finished t) ∧
        ts.reverse = .ident n :: (params.map .ident ++ cs.map Constructor.term) := by
  refine ⟨(cs.map Constructor.term).reverse ++ (params.map Term.ident).reverse ++ [.ident n],
    ?_, ?_, by simp⟩
  · rw [foldl_pushing, foldl_pushing]
    simp
  · simp only [List.mem_append, List.mem_reverse, List.mem_map, List.mem_singleton]
    rintro t ((⟨c, -, rfl⟩ | ⟨m, -, rfl⟩) | rfl) <;> rfl

theorem finishType_eq {p : Parser} {n : String} {params : List String} {cs : List Constructor}
    {s : List Term}
    (h : p.stack = cs.foldl (pushing Constructor.term)
      (params.foldl (pushing .ident) (.ident n :: .marker :: s))) :
    p.finishType = .ok { p with stack := (Statement.datatype n params cs).term :: s } := by
  obtain ⟨ts, hstack, hfinished, hts⟩ := exists_typeStack n params cs s
  rw [finishType, h, hstack, sinceMarker_eq hfinished, hts, List.append_nil]
  rfl

theorem typeParts_obeys :
    Obeys typeParts (fun p => p.symbols.head? = some (.keyword "decltype"))
      (fun d : (String × List String) × List Constructor =>
        (Statement.datatype d.1.1 d.1.2 d.2).symbols)
      (fun s d => d.2.foldl (pushing Constructor.term)
        (d.1.2.foldl (pushing .ident) (.ident d.1.1 :: .marker :: s))) Ended := by
  have hname := (identifier_obeys.push .marker always fun _ _ => trivial).advance
    (.keyword "decltype") (fun p => p.symbols.head? = some (.keyword "decltype"))
    (fun p _ hp => hp) (fun _ _ => trivial)
  have hparam : Obeys identifier (fun p => always p ∧ p.is .ident = true) (fun n => [.name n])
      (pushing .ident) always := identifier_obeys.mono (fun _ _ => trivial) (fun _ h => h)
  have hparams := hparam.many (fun p hp => is_ident hp) (fun _ _ => rfl) (fun _ _ => trivial)
    (fun _ _ _ _ _ => trivial)
  -- Neither the sign of the constructors nor the end of the statement is a name.
  have hstop : ∀ (cs : List Constructor) r, Ended r →
      always (constructorSymbols cs ++ r) ∧ Stops isName (constructorSymbols cs ++ r) := by
    intro cs r hr
    refine ⟨trivial, ?_⟩
    cases cs with
    | nil => exact hr.stops rfl
    | cons c cs => rfl
  have hread := (hname.bind hparams (fun _ _ _ _ _ => trivial) (fun _ _ _ => trivial)).bind
    constructors?_obeys (fun _ _ _ _ _ => trivial) hstop
  refine hread.map _ _ id id (fun _ => rfl) ?_ (fun _ _ => rfl)
  rintro ⟨⟨n, params⟩, cs⟩
  simp [Statement.symbols, List.map_eq_flatMap]

theorem typeDeclaration_obeys :
    Obeys typeDeclaration (fun p => p.symbols.head? = some (.keyword "decltype"))
      (fun d : (String × List String) × List Constructor =>
        (Statement.datatype d.1.1 d.1.2 d.2).symbols)
      (pushing fun d => (Statement.datatype d.1.1 d.1.2 d.2).term) Ended := by
  rw [funext typeDeclaration_eq]
  exact typeParts_obeys.finish finishType _ fun _ _ _ _ hq => finishType_eq hq

/-! ## Signatures -/

/-- A name, a colon and a type. -/
def signatureParts : Step := fun p => p.identifier >>= expect .colon >>= expression

theorem signature_eq (p : Parser) : p.signature = p.signatureParts >>= finishSignature := by
  simp only [signature, signatureParts, bind_assoc]

theorem signatureParts_obeys :
    Obeys signatureParts always
      (fun d : String × Expression => .name d.1 :: .mark .colon :: d.2.symbols)
      (fun s d => d.2.term :: .ident d.1 :: s) Ended := by
  have hcolon := expect_obeys .colon (by decide)
  have hread := (identifier_obeys.bind hcolon (fun _ _ _ _ _ => trivial)
    (fun _ _ _ => trivial)).bind expression_obeys (fun _ _ _ _ _ => trivial)
    (fun _ _ _ => trivial)
  have hall := hread.map
    (fun d : String × Expression => .name d.1 :: .mark .colon :: d.2.symbols)
    (fun s d => d.2.term :: .ident d.1 :: s) (fun d => (d.1.1, d.2)) (fun d => ((d.1, ()), d.2))
    (fun _ => rfl) (fun _ => rfl) (fun _ _ => rfl)
  exact hall.mono (fun _ hp => hp) (fun r hr => hr.stops rfl)

/-- Without a builtin marker below it, a signature is a plain one. -/
theorem signature_obeys :
    Obeys signature (fun p => p.stack.head? ≠ some .builtinMarker)
      (fun d : String × Expression => (Statement.signature d.1 d.2).symbols)
      (pushing fun d => (Statement.signature d.1 d.2).term) Ended := by
  rw [funext signature_eq]
  refine (signatureParts_obeys.mono (fun _ _ => trivial) (fun _ h => h)).finish finishSignature _ ?_
  intro p q d hp hq
  rw [finishSignature, hq]
  rcases hs : p.stack with _ | ⟨t, s⟩
  · rfl
  · rw [hs] at hp
    cases t <;> first | rfl | exact absurd rfl hp

theorem markedSignature_obeys :
    Obeys (fun p => (p.push .builtinMarker).signature) always
      (fun d : String × Expression => .name d.1 :: .mark .colon :: d.2.symbols)
      (pushing fun d => (Statement.builtin d.1 d.2).term) Ended := by
  rw [funext signature_eq]
  have hread := (signatureParts_obeys.push .builtinMarker always fun _ _ => trivial)
  exact hread.finish finishSignature _ fun p q d _ hq => by
    rw [finishSignature, hq]
    rfl

theorem isSignature_iff {p : Parser} (hp : p.Sound) :
    p.isSignature = true ↔ ∃ n ws, p.symbols = .name n :: .mark .colon :: ws := by
  have htwo : p.isSignature = (p.is .ident && p.advance.is .colon) := rfl
  have htail : p.advance.symbols = p.symbols.tail := List.map_tail
  rw [htwo, Bool.and_eq_true, is_mark_iff hp.advance (by decide), htail]
  constructor
  · rintro ⟨hident, hcolon⟩
    obtain ⟨ws, hws⟩ := List.head?_eq_some_iff.1 ((head?_eq_name_iff hp).2 ⟨hident, rfl⟩)
    rw [hws] at hcolon
    obtain ⟨ws, rfl⟩ := List.head?_eq_some_iff.1 hcolon
    exact ⟨_, ws, hws⟩
  · rintro ⟨n, ws, hws⟩
    have hhead : p.symbols.head? = some (.name n) := by rw [hws, List.head?_cons]
    exact ⟨((head?_eq_name_iff hp).1 hhead).1, by rw [hws]; rfl⟩

theorem builtinSignature_obeys :
    Obeys builtinSignature (fun p => p.symbols.head? = some (.keyword "builtin"))
      (fun d : String × Expression => (Statement.builtin d.1 d.2).symbols)
      (pushing fun d => (Statement.builtin d.1 d.2).term) Ended := by
  have hguarded : Obeys (fun p => if (p.push .builtinMarker).isSignature
      then (p.push .builtinMarker).signature else (p.push .builtinMarker).unexpected) always
      (fun d : String × Expression => .name d.1 :: .mark .colon :: d.2.symbols)
      (pushing fun d => (Statement.builtin d.1 d.2).term) Ended := by
    refine ⟨?_, ?_⟩
    · intro p q hp _ hstep
      split at hstep
      · exact markedSignature_obeys.sound hp trivial hstep
      · exact absurd hstep not_unexpected
    · intro p q d hp _ hreads hq
      have hsignature : (p.push .builtinMarker).isSignature = true :=
        (isSignature_iff ⟨hp.stop, hp.inner⟩).2 ⟨d.1, _, hreads.symbols⟩
      rw [if_pos hsignature]
      exact markedSignature_obeys.complete d hp trivial hreads hq
  exact hguarded.advance (.keyword "builtin") _ (fun p _ hp => hp) (fun _ _ => trivial)

/-! ## Clauses -/

theorem parenParameter_obeys :
    Obeys (fun p => p.advance.expression >>= expect .rparen) (fun p => p.is .lparen = true)
      (fun e : Expression => .mark .lparen :: (e.symbols ++ [.mark .rparen]))
      (pushing Expression.term) always := by
  have hclose := expect_obeys .rparen (by decide)
  have hread := (expression_obeys.bind hclose (fun _ _ _ _ _ => trivial)
    (fun _ _ _ => rfl)).map (fun e : Expression => e.symbols ++ [.mark .rparen])
    (pushing Expression.term) Prod.fst (fun e => (e, ())) (fun _ => rfl) (fun _ => rfl)
    (fun _ _ => rfl)
  exact hread.advance (.mark .lparen) _
    (fun p hp hparen => (is_mark_iff hp (by decide)).1 hparen)
    (fun _ _ => trivial)

theorem parameter_obeys :
    Obeys parameter always Parameter.symbols (pushing Parameter.term) always where
  sound := by
    intro p q hp _ hstep
    rw [parameter] at hstep
    split at hstep
    · rename_i hwildcard
      cases hstep
      have hhead := (is_mark_iff hp (by decide)).1 hwildcard
      exact ⟨.wildcard, reads_singleton_iff.2 ⟨hhead, rfl⟩⟩
    · split at hstep
      · obtain ⟨n, hn⟩ := identifier_obeys.sound hp trivial hstep
        exact ⟨.name n, hn⟩
      · split at hstep
        · rename_i hparen
          obtain ⟨e, he⟩ := parenParameter_obeys.sound hp hparen hstep
          exact ⟨.paren e, he⟩
        · exact absurd hstep not_unexpected
  complete := by
    intro p q x hp _ hreads _
    rw [parameter, is_ident hp, is_mark hp (by decide), is_mark hp (by decide)]
    cases x with
    | wildcard =>
      obtain ⟨hhead, rfl⟩ := reads_singleton_iff.1 hreads
      rw [if_pos (next_beq_iff.2 hhead)]
      rfl
    | name n =>
      have hhead : p.symbols.head? = some (.name n) := (Reads.cons_iff.1 hreads).1
      simp only [next, hhead]
      exact identifier_obeys.complete n hp trivial hreads trivial
    | paren e =>
      have hhead : p.symbols.head? = some (.mark .lparen) := (Reads.cons_iff.1 hreads).1
      have hparen := (is_mark_iff hp (by decide)).2 hhead
      simp only [next, hhead]
      exact parenParameter_obeys.complete e hp hparen hreads trivial

theorem not_endsParameters {p : Parser} (hp : p.Sound) :
    (!p.endsParameters) = p.next (· != .mark .assign) := by
  have hdone := isDone_iff hp
  rw [endsParameters, is_mark hp (by decide), next, next]
  rcases hws : p.symbols with _ | ⟨w, ws⟩
  · rw [hdone.2 hws]
    rfl
  · have hfalse : p.isDone = false := by
      rw [← Bool.not_eq_true, hdone, hws]
      exact List.cons_ne_nil _ _
    rw [hfalse]
    rfl

/-- Parameters, at least one, the sign behind them, and a body. -/
def clauseBody : Step := fun p =>
  if p.endsParameters then p.fail .clauseWithoutParameters
  else many (fun p => !p.endsParameters) parameter p >>= expect .assign >>= expression

/-- The name and the body of a clause, above a marker. -/
def clauseParts : Step := fun p => (p.advance.push .marker).identifier >>= clauseBody

theorem clause_eq (p : Parser) : p.clause = p.clauseParts >>= finishClause := by
  simp only [clause, clauseParts, bind_assoc]
  congr
  funext p
  rw [clauseBody]
  split
  · rfl
  · simp only [bind_assoc]

theorem clauseBody_obeys :
    Obeys clauseBody always
      (fun d : (Parameter × List Parameter) × Expression =>
        (d.1.1 :: d.1.2).flatMap Parameter.symbols ++ .mark .assign :: d.2.symbols)
      (fun s d => d.2.term :: (d.1.1 :: d.1.2).foldl (pushing Parameter.term) s) Ended := by
  have hopens : ∀ (x : Parameter) r, (x.symbols ++ r).head?.any (· != .mark .assign) = true := by
    intro x r
    cases x <;> rfl
  have hparam : Obeys parameter (fun p => always p ∧ (!p.endsParameters) = true)
      Parameter.symbols (pushing Parameter.term) always :=
    parameter_obeys.mono (fun _ _ => trivial) (fun _ h => h)
  have hparams := hparam.many (fun p hp => not_endsParameters hp) hopens (fun _ _ => trivial)
    (fun _ _ _ _ _ => trivial)
  have hassign := expect_obeys .assign (by decide)
  have hread := (hparams.bind hassign (fun _ _ _ _ _ => trivial)
    (fun _ _ _ => ⟨trivial, rfl⟩)).bind expression_obeys (fun _ _ _ _ _ => trivial)
    (fun _ _ _ => trivial)
  have hends : ∀ p : Parser, p.Sound → (p.endsParameters = true ↔
      p.next (· != .mark .assign) = false) := by
    intro p hp
    rw [← not_endsParameters hp]
    simp
  refine ⟨?_, ?_⟩
  · intro p q hp _ hstep
    rw [clauseBody] at hstep
    split at hstep
    · cases hstep
    · rename_i hmore
      obtain ⟨⟨⟨xs, ⟨⟩⟩, e⟩, hd⟩ := hread.sound hp trivial hstep
      cases xs with
      | nil =>
        -- The sign comes first, so there would have been no parameters at all.
        refine absurd ((hends p hp).2 ?_) hmore
        rw [next, hd.symbols]
        rfl
      | cons x xs =>
        refine ⟨((x, xs), e), ?_⟩
        rw [List.append_assoc] at hd
        exact hd
  · rintro p q ⟨⟨x, xs⟩, e⟩ hp _ hreads hq
    have hmore : ¬ p.endsParameters = true := by
      have hnext : p.next (· != .mark .assign) = true := hreads.next fun r => by
        rw [List.flatMap_cons, List.append_assoc, List.append_assoc]
        exact hopens x _
      rw [hends p hp, hnext]
      decide
    rw [clauseBody, if_neg hmore]
    refine hread.complete ((x :: xs, ()), e) hp trivial ?_ (hq.stops rfl)
    rw [List.append_assoc]
    exact hreads

/-- Above its marker a clause leaves its name, its parameters and its body. -/
theorem exists_clauseStack (n : String) (xs : List Parameter) (body : Expression)
    (s : List Term) : ∃ ts : List Term,
      body.term :: xs.foldl (pushing Parameter.term) (.ident n :: .marker :: s)
          = ts ++ .marker :: s ∧
        (∀ t ∈ ts, Finished t) ∧
        ts.reverse = (.ident n :: xs.map Parameter.term) ++ [body.term] := by
  refine ⟨body.term :: (xs.map Parameter.term).reverse ++ [.ident n], ?_, ?_, by simp⟩
  · rw [foldl_pushing]
    simp
  · intro t ht
    simp only [List.cons_append, List.mem_cons, List.mem_append, List.mem_reverse, List.mem_map,
      List.not_mem_nil, or_false] at ht
    rcases ht with rfl | ⟨x, -, rfl⟩ | rfl
    · exact Expression.finished body
    · exact Parameter.finished x
    · rfl

theorem finishClause_eq {p : Parser} {n : String} {first : Parameter} {more : List Parameter}
    {body : Expression} {s : List Term}
    (h : p.stack = body.term ::
      (first :: more).foldl (pushing Parameter.term) (.ident n :: .marker :: s)) :
    p.finishClause = .ok { p with stack := (Statement.clause n first more body).term :: s } := by
  obtain ⟨ts, hstack, hfinished, hts⟩ := exists_clauseStack n (first :: more) body s
  rw [finishClause, h, hstack, sinceMarker_eq hfinished, hts, List.append_nil]
  simp only [List.dropLast_concat, List.getLast?_concat]
  rfl

theorem clauseParts_obeys :
    Obeys clauseParts (fun p => p.is .rule = true)
      (fun d : String × (Parameter × List Parameter) × Expression =>
        (Statement.clause d.1 d.2.1.1 d.2.1.2 d.2.2).symbols)
      (fun s d => d.2.2.term ::
        (d.2.1.1 :: d.2.1.2).foldl (pushing Parameter.term) (.ident d.1 :: .marker :: s)) Ended := by
  have hname := (identifier_obeys.push .marker always fun _ _ => trivial).advance
    (.mark .rule) (fun p => p.is .rule = true)
    (fun p hp hrule => (is_mark_iff hp (by decide)).1 hrule)
    (fun _ _ => trivial)
  have hread := hname.bind clauseBody_obeys (fun _ _ _ _ _ => trivial) (fun _ _ _ => trivial)
  exact hread.map _ _ id id (fun _ => rfl) (fun _ => rfl) (fun _ _ => rfl)

theorem clause_obeys :
    Obeys clause (fun p => p.is .rule = true)
      (fun d : String × (Parameter × List Parameter) × Expression =>
        (Statement.clause d.1 d.2.1.1 d.2.1.2 d.2.2).symbols)
      (pushing fun d => (Statement.clause d.1 d.2.1.1 d.2.1.2 d.2.2).term) Ended := by
  rw [funext clause_eq]
  exact clauseParts_obeys.finish finishClause _ fun _ _ _ _ hq => finishClause_eq hq

/-! ## Statements of any kind -/

/-- The stack when a statement has been read. A signature takes the mark of a builtin one that it
    finds for its own. -/
def declared : List Term → Statement → List Term
  | .builtinMarker :: below, .signature n type => (Statement.builtin n type).term :: below
  | stack, s => s.term :: stack

theorem declared_of_ne {stack : List Term} (h : stack.head? ≠ some .builtinMarker) (s : Statement) :
    declared stack s = s.term :: stack := by
  unfold declared
  split
  · exact absurd rfl h
  · rfl

theorem declared_of_ne_signature (stack : List Term) {s : Statement}
    (h : ∀ n type, s ≠ .signature n type) : declared stack s = s.term :: stack := by
  unfold declared
  split
  · exact absurd rfl (h _ _)
  · rfl

theorem signature_reads {p q : Parser} (hp : p.Sound) (h : p.signature = .ok q) :
    ∃ n type, p.Reads (Statement.signature n type).symbols
      (declared p.stack (.signature n type)) q := by
  by_cases hstack : p.stack.head? = some .builtinMarker
  · obtain ⟨below, hbelow⟩ := List.head?_eq_some_iff.1 hstack
    have hpush : p = ({ p with stack := below } : Parser).push .builtinMarker := by
      rw [push, ← hbelow]
    rw [hpush] at h
    obtain ⟨⟨n, type⟩, hd⟩ := markedSignature_obeys.sound (p := { p with stack := below })
      ⟨hp.stop, hp.inner⟩ trivial h
    refine ⟨n, type, ?_⟩
    rw [hbelow]
    exact ⟨hd.symbols, hd.left⟩
  · obtain ⟨⟨n, type⟩, hd⟩ := signature_obeys.sound hp hstack h
    refine ⟨n, type, ?_⟩
    rw [declared_of_ne hstack]
    exact hd

/-- Whatever is on the stack, a statement that is read puts its declaration there. -/
theorem statement_reads {p q : Parser} (hp : p.Sound) (h : p.statement = .ok q) :
    ∃ s : Statement, p.Reads s.symbols (declared p.stack s) q := by
  rw [statement] at h
  split at h
  · rename_i hkeyword
    split at h
    · rename_i hname
      obtain ⟨d, hd⟩ := typeDeclaration_obeys.sound hp
        ((head?_eq_keyword_iff hp).2 ⟨hkeyword, hname⟩) h
      refine ⟨.datatype d.1.1 d.1.2 d.2, ?_⟩
      rw [declared_of_ne_signature _ (by simp)]
      exact hd
    · rename_i hname
      obtain ⟨d, hd⟩ := builtinSignature_obeys.sound hp
        ((head?_eq_keyword_iff hp).2 ⟨hkeyword, hname⟩) h
      refine ⟨.builtin d.1 d.2, ?_⟩
      rw [declared_of_ne_signature _ (by simp)]
      exact hd
    · exact absurd h not_unexpected
  · split at h
    · rename_i hrule
      obtain ⟨d, hd⟩ := clause_obeys.sound hp hrule h
      refine ⟨.clause d.1 d.2.1.1 d.2.1.2 d.2.2, ?_⟩
      rw [declared_of_ne_signature _ (by simp)]
      exact hd
    · split at h
      · obtain ⟨n, type, hd⟩ := signature_reads hp h
        exact ⟨.signature n type, hd⟩
      · exact absurd h not_unexpected

theorem statement_obeys :
    Obeys statement (fun p => p.stack.head? ≠ some .builtinMarker) Statement.symbols
      (pushing Statement.term) Ended where
  sound := by
    intro p q hp hstack hstep
    obtain ⟨s, hs⟩ := statement_reads hp hstep
    rw [declared_of_ne hstack] at hs
    exact ⟨s, hs⟩
  complete := by
    intro p q s hp hstack hreads hq
    have hhead : p.symbols.head? = (s.symbols ++ q.symbols).head? := by rw [hreads.symbols]
    rw [statement]
    cases s with
    | datatype n params cs =>
      obtain ⟨hkeyword, hname⟩ := (head?_eq_keyword_iff hp).1 hhead
      rw [if_pos hkeyword, hname]
      exact typeDeclaration_obeys.complete ((n, params), cs) hp hhead hreads hq
    | builtin n type =>
      obtain ⟨hkeyword, hname⟩ := (head?_eq_keyword_iff hp).1 hhead
      rw [if_pos hkeyword, hname]
      exact builtinSignature_obeys.complete (n, type) hp hhead hreads hq
    | signature n type =>
      have hkeyword : p.is .keyword = false := by
        rw [is_keyword hp, next, hhead]
        rfl
      have hrule : p.is .rule = false := by
        rw [is_mark hp (by decide), next, hhead]
        rfl
      have hsignature : p.isSignature = true :=
        (isSignature_iff hp).2 ⟨n, _, hreads.symbols⟩
      rw [hkeyword, hrule, if_neg (by decide), if_neg (by decide), if_pos hsignature]
      exact signature_obeys.complete (n, type) hp hstack hreads hq
    | clause n first more body =>
      have hkeyword : p.is .keyword = false := by
        rw [is_keyword hp, next, hhead]
        rfl
      have hrule : p.is .rule = true :=
        (is_mark_iff hp (by decide)).2 hhead
      rw [hkeyword, if_neg (by decide), if_pos hrule]
      exact clause_obeys.complete (n, (first, more), body) hp hrule hreads hq

end Clausal.Parser
