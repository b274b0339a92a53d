/-
  Clausal.Proofs.Derivation

  The grammar as trees. A derivation of a rule is a tree of the type that stands for the rule;
  `symbols` is what it derives and `term` what it means:

    factor      = name | "(" expression ")"
    phrase      = factor { factor }
    expression  = phrase { "->" phrase }
    parameter   = "_" | name | "(" expression ")"
    constructor = name { factor }
    statement   = "decltype" name { name } [ "=" constructor { "|" constructor } ]
                | "builtin" name ":" expression
                | name ":" expression
                | ">" name parameter { parameter } "=" expression
    source      = { ";" } [ statement { ";" { ";" } statement } { ";" } ]

  A derivation is determined by what it derives (`Grammar.Source.symbols_injective`). Each rule
  is read from the left: where one derivation ends is settled by the symbol behind it, so two
  that begin alike and are followed by symbols they cannot continue with are the same.
-/
import Clausal.Proofs.Strip
import Clausal.Token.Basic
import Mathlib.Data.List.Basic

namespace Clausal

/-- What the grammar sees of a token: its kind, and the name if it has one. -/
inductive Symbol where
  | name (n : String)
  | keyword (n : String)
  | mark (kind : Token.Kind)
  deriving DecidableEq, Repr

def Token.symbol (t : Token) : Symbol :=
  match t.kind with
  | .ident => .name t.name
  | .keyword => .keyword t.name
  | kind => .mark kind

namespace Grammar

/-! ## Expressions -/

mutual

inductive Factor where
  | name (n : String)
  | paren (body : Expression)

/-- One or more factors. -/
inductive Phrase where
  | of (first : Factor) (args : List Factor)

/-- One or more phrases with arrows between them. -/
inductive Expression where
  | of (first : Phrase) (more : List Phrase)

end

/-- The first factor and those behind it. -/
def Phrase.parts : Phrase → Factor × List Factor
  | .of first args => (first, args)

/-- The first phrase and those behind it. -/
def Expression.parts : Expression → Phrase × List Phrase
  | .of first more => (first, more)

mutual

def Factor.symbols : Factor → List Symbol
  | .name n => [.name n]
  | .paren body => .mark .lparen :: (body.symbols ++ [.mark .rparen])

def factorSymbols : List Factor → List Symbol
  | [] => []
  | f :: fs => f.symbols ++ factorSymbols fs

def Phrase.symbols : Phrase → List Symbol
  | .of first args => first.symbols ++ factorSymbols args

/-- Phrases with an arrow before each. -/
def phraseSymbols : List Phrase → List Symbol
  | [] => []
  | p :: ps => .mark .arrow :: (p.symbols ++ phraseSymbols ps)

def Expression.symbols : Expression → List Symbol
  | .of first more => first.symbols ++ phraseSymbols more

end

/-- One term is itself, several make one flat sequence. -/
def joined (kind : Term.Sequence) (first : Term) (more : List Term) : Term :=
  if more.isEmpty then first else .seq kind (first :: more)

mutual

def Factor.term : Factor → Term
  | .name n => .ident n
  | .paren body => .group body.term

def factorTerms : List Factor → List Term
  | [] => []
  | f :: fs => f.term :: factorTerms fs

def Phrase.term : Phrase → Term
  | .of first args => joined .application first.term (factorTerms args)

def phraseTerms : List Phrase → List Term
  | [] => []
  | p :: ps => p.term :: phraseTerms ps

def Expression.term : Expression → Term
  | .of first more => joined .arrow first.term (phraseTerms more)

end

/-- Induction on the derivations of all three rules at once. -/
theorem inductionOn {onFactor : Factor → Prop} {onPhrase : Phrase → Prop}
    {onExpression : Expression → Prop} (name : ∀ n, onFactor (.name n))
    (paren : ∀ e, onExpression e → onFactor (.paren e))
    (phrase : ∀ f fs, onFactor f → (∀ x ∈ fs, onFactor x) → onPhrase (.of f fs))
    (expression : ∀ p ps, onPhrase p → (∀ x ∈ ps, onPhrase x) → onExpression (.of p ps)) :
    (∀ f, onFactor f) ∧ (∀ p, onPhrase p) ∧ ∀ e, onExpression e := by
  have hfactor : ∀ f, onFactor f := by
    refine @Factor.rec onFactor onPhrase onExpression (fun fs => ∀ x ∈ fs, onFactor x)
      (fun ps => ∀ x ∈ ps, onPhrase x) name paren phrase expression ?_ ?_ ?_ ?_
    · intro x hx
      cases hx
    · intro f fs hf hfs
      exact List.forall_mem_cons.2 ⟨hf, hfs⟩
    · intro x hx
      cases hx
    · intro p ps hp hps
      exact List.forall_mem_cons.2 ⟨hp, hps⟩
  -- A phrase is made of factors and an expression of phrases.
  have hphrase : ∀ p, onPhrase p := by
    rintro ⟨f, fs⟩
    exact phrase f fs (hfactor f) fun x _ => hfactor x
  refine ⟨hfactor, hphrase, ?_⟩
  rintro ⟨p, ps⟩
  exact expression p ps (hphrase p) fun x _ => hphrase x

@[simp] theorem factorSymbols_eq_flatMap (fs : List Factor) :
    factorSymbols fs = fs.flatMap Factor.symbols := by
  induction fs with
  | nil => rfl
  | cons f fs ih => simp [factorSymbols, ih]

@[simp] theorem phraseSymbols_eq_flatMap (ps : List Phrase) :
    phraseSymbols ps = ps.flatMap fun p => .mark .arrow :: p.symbols := by
  induction ps with
  | nil => rfl
  | cons p ps ih => simp [phraseSymbols, ih]

@[simp] theorem factorTerms_eq_map (fs : List Factor) : factorTerms fs = fs.map Factor.term := by
  induction fs with
  | nil => rfl
  | cons f fs ih => simp [factorTerms, ih]

@[simp] theorem phraseTerms_eq_map (ps : List Phrase) : phraseTerms ps = ps.map Phrase.term := by
  induction ps with
  | nil => rfl
  | cons p ps ih => simp [phraseTerms, ih]

/-! ## Statements -/

inductive Parameter where
  | wildcard
  | name (n : String)
  | paren (body : Expression)

def Parameter.symbols : Parameter → List Symbol
  | .wildcard => [.mark .wildcard]
  | .name n => [.name n]
  | .paren body => .mark .lparen :: (body.symbols ++ [.mark .rparen])

/-- What a parameter means. Its parentheses leave no group behind. -/
def Parameter.term : Parameter → Term
  | .wildcard => .ident "_"
  | .name n => .ident n
  | .paren body => body.term

structure Constructor where
  name : String
  args : List Factor

def Constructor.symbols (c : Constructor) : List Symbol :=
  .name c.name :: c.args.flatMap Factor.symbols

/-- A constructor is an application, even without arguments. -/
def Constructor.term (c : Constructor) : Term := .app (.ident c.name :: c.args.map Factor.term)

inductive Statement where
  | datatype (name : String) (params : List String) (constructors : List Constructor)
  | builtin (name : String) (type : Expression)
  | signature (name : String) (type : Expression)
  | clause (name : String) (first : Parameter) (more : List Parameter) (body : Expression)

/-- The constructors of a type with the signs before them. Without any there is no sign. -/
def constructorSymbols : List Constructor → List Symbol
  | [] => []
  | c :: cs => .mark .assign :: (c.symbols ++ cs.flatMap fun d => .mark .pipe :: d.symbols)

def Statement.symbols : Statement → List Symbol
  | .datatype name params constructors =>
    .keyword "decltype" :: .name name :: (params.map .name ++ constructorSymbols constructors)
  | .builtin name type => .keyword "builtin" :: .name name :: .mark .colon :: type.symbols
  | .signature name type => .name name :: .mark .colon :: type.symbols
  | .clause name first more body =>
    .mark .rule :: .name name ::
      ((first :: more).flatMap Parameter.symbols ++ .mark .assign :: body.symbols)

def Statement.term : Statement → Term
  | .datatype name params constructors =>
    .entity (.ident name :: (params.map .ident ++ constructors.map Constructor.term))
  | .builtin name type => .builtin (.ident name) type.term
  | .signature name type => .isa (.ident name) type.term
  | .clause name first more body =>
    .define (.app (.ident name :: (first :: more).map Parameter.term)) body.term

/-! ## Whole texts -/

/-- Some semicolons. -/
def semicolons (n : Nat) : List Symbol := List.replicate n (.mark .semicolon)

/-- A statement behind another, with the number of semicolons between them beyond the one that has
    to be there. -/
def separated (s : Nat × Statement) : List Symbol := semicolons (s.1 + 1) ++ s.2.symbols

/-- A whole text: semicolons only, or statements with semicolons before, between and after
    them. -/
inductive Source where
  | empty (n : Nat)
  | of (leading : Nat) (first : Statement) (more : List (Nat × Statement)) (trailing : Nat)

def Source.symbols : Source → List Symbol
  | .empty n => semicolons n
  | .of leading first more trailing =>
    semicolons leading ++ (first.symbols ++ (more.flatMap separated ++ semicolons trailing))

def Source.terms : Source → List Term
  | .empty _ => []
  | .of _ first more _ => first.term :: more.map (·.2.term)

/-! ## What derivations mean -/

theorem joined_formed {names : String → Prop} {kind : Term.Sequence} (hkind : kind ≠ .entity)
    {first : Term} {more : List Term} (hfirst : first.Formed names 2)
    (hmore : ∀ t ∈ more, t.Formed names 2) : (joined kind first more).Formed names 2 := by
  rw [joined]
  split
  · exact hfirst
  · rename_i hne
    have hpos : 0 < more.length := by
      rw [List.length_pos_iff]
      simpa using hne
    refine .seq hkind ?_ (List.forall_mem_cons.2 ⟨hfirst, hmore⟩)
    rw [List.length_cons]
    omega

/-- The meaning of an expression is made of identifiers, groups, and applications and arrows of at
    least two elements, and its names are those that are written. -/
theorem expressions_formed {names : String → Prop} :
    (∀ f : Factor, (∀ n, .name n ∈ f.symbols → names n) → f.term.Formed names 2) ∧
      (∀ p : Phrase, (∀ n, .name n ∈ p.symbols → names n) → p.term.Formed names 2) ∧
      ∀ e : Expression, (∀ n, .name n ∈ e.symbols → names n) → e.term.Formed names 2 := by
  apply inductionOn
  · intro n h
    exact .ident (h n List.mem_cons_self)
  · intro e ihe h
    exact .group (ihe fun n hn => h n (by simp [Factor.symbols, hn]))
  · intro f fs ihf ihfs h
    simp only [Phrase.symbols, factorSymbols_eq_flatMap, List.mem_append, List.mem_flatMap] at h
    rw [Phrase.term, factorTerms_eq_map]
    refine joined_formed (by decide) (ihf fun n hn => h n (.inl hn)) ?_
    rw [List.forall_mem_map]
    exact fun x hx => ihfs x hx fun n hn => h n (.inr ⟨x, hx, hn⟩)
  · intro p ps ihp ihps h
    simp only [Expression.symbols, phraseSymbols_eq_flatMap, List.mem_append,
      List.mem_flatMap] at h
    rw [Expression.term, phraseTerms_eq_map]
    refine joined_formed (by decide) (ihp fun n hn => h n (.inl hn)) ?_
    rw [List.forall_mem_map]
    exact fun x hx => ihps x hx fun n hn => h n (.inr ⟨x, hx, List.mem_cons_of_mem _ hn⟩)

theorem Factor.term_formed {names : String → Prop} (f : Factor)
    (h : ∀ n, .name n ∈ f.symbols → names n) : f.term.Formed names 2 := expressions_formed.1 f h

theorem Expression.term_formed {names : String → Prop} (e : Expression)
    (h : ∀ n, .name n ∈ e.symbols → names n) : e.term.Formed names 2 :=
  expressions_formed.2.2 e h

/-! ## Derivations are unique

`Cuts written stop d` says that where the derivation `d` ends can be told: nothing else is written
alike up to a place from which it cannot go on. -/

/-- Some symbols do not begin with one that passes a test. -/
def Stops (test : Symbol → Bool) (ws : List Symbol) : Prop := ws.head?.any test = false

/-- Whether a factor can begin with a symbol. -/
def opensFactor : Symbol → Bool
  | .name _ => true
  | .mark .lparen => true
  | _ => false

/-- Whether an expression can go on with a symbol. -/
def continues : Symbol → Bool
  | .mark .arrow => true
  | w => opensFactor w

/-- A statement is over: a semicolon comes next, or nothing. -/
def Ended (ws : List Symbol) : Prop := Stops (· != .mark .semicolon) ws

def Cuts {δ : Type} (written : δ → List Symbol) (stop : List Symbol → Prop) (d : δ) : Prop :=
  ∀ d' r r', stop r → stop r' → written d ++ r = written d' ++ r' → d = d' ∧ r = r'

/-- Where a list of derivations begins, one of them does, or what follows the list. -/
theorem stop_flatMap {δ : Type} {written : δ → List Symbol} {stop : List Symbol → Prop}
    (hnext : ∀ d r, stop (written d ++ r)) (ds : List δ) {r : List Symbol} (hr : stop r) :
    stop (ds.flatMap written ++ r) := by
  cases ds with
  | nil => exact hr
  | cons d ds =>
    rw [List.flatMap_cons, List.append_assoc]
    exact hnext d _

/-- A list of derivations can be cut off if each of them can, and if what follows the list cannot
    be taken for one more. -/
theorem Cuts.flatMap {δ : Type} {written : δ → List Symbol} {stop stop' : List Symbol → Prop}
    {ds : List δ} (hcuts : ∀ d ∈ ds, Cuts written stop d) (hnext : ∀ d r, stop (written d ++ r))
    (hlast : ∀ r, stop' r → stop r) (hother : ∀ r, stop' r → ∀ d r', r ≠ written d ++ r') :
    Cuts (List.flatMap written) stop' ds := by
  induction ds with
  | nil =>
    rintro (_ | ⟨d', ds'⟩) r r' hr hr' h
    · exact ⟨rfl, h⟩
    · rw [List.flatMap_cons, List.append_assoc] at h
      exact absurd h (hother r hr d' _)
  | cons d ds ih =>
    rw [List.forall_mem_cons] at hcuts
    rintro (_ | ⟨d', ds'⟩) r r' hr hr' h
    · rw [List.flatMap_cons, List.append_assoc] at h
      exact absurd h.symm (hother r' hr' d _)
    · rw [List.flatMap_cons, List.flatMap_cons, List.append_assoc, List.append_assoc] at h
      have hstop := stop_flatMap hnext ds (hlast r hr)
      have hstop' := stop_flatMap hnext ds' (hlast r' hr')
      obtain ⟨rfl, hrest⟩ := hcuts.1 d' _ _ hstop hstop' h
      obtain ⟨rfl, hend⟩ := ih hcuts.2 ds' r r' hr hr' hrest
      exact ⟨rfl, hend⟩

theorem Factor.opens (f : Factor) (r : List Symbol) :
    (f.symbols ++ r).head?.any opensFactor = true := by
  cases f <;> rfl

/-- What does not begin with a factor is no factor and something more. -/
theorem Factor.ne_of_stops {r : List Symbol} (h : Stops opensFactor r) (f : Factor)
    (r' : List Symbol) : r ≠ f.symbols ++ r' := by
  rintro rfl
  rw [Stops, f.opens] at h
  cases h

theorem factors_cut {fs : List Factor} (h : ∀ f ∈ fs, Cuts Factor.symbols (fun _ => True) f) :
    Cuts (List.flatMap Factor.symbols) (Stops opensFactor) fs :=
  Cuts.flatMap h (fun _ _ => trivial) (fun _ _ => trivial) fun _ => Factor.ne_of_stops

theorem Stops.opensFactor {r : List Symbol} (h : Stops continues r) : Stops opensFactor r := by
  rcases r with _ | ⟨_ | _ | kind, r⟩
  · rfl
  · exact h
  · exact h
  · cases kind <;> first | rfl | exact h

theorem Stops.arrow {r : List Symbol} (h : Stops continues r) : Stops (· == .mark .arrow) r := by
  rcases r with _ | ⟨_ | _ | kind, r⟩
  · rfl
  · rfl
  · rfl
  · cases kind <;> first | rfl | exact h

/-- Something with a mark before it can be cut off where it can without. -/
theorem Cuts.cons {δ : Type} {written : δ → List Symbol} {stop : List Symbol → Prop} {d : δ}
    (h : Cuts written stop d) (w : Symbol) : Cuts (fun d => w :: written d) stop d := by
  intro d' r r' hr hr' heq
  exact h d' r r' hr hr' (List.cons.inj heq).2

theorem expressions_cut :
    (∀ f, Cuts Factor.symbols (fun _ => True) f) ∧
      (∀ p, Cuts Phrase.symbols (Stops opensFactor) p) ∧
      ∀ e, Cuts Expression.symbols (Stops continues) e := by
  apply inductionOn
  · rintro n (n' | body) r r' - - h
    · simpa [Factor.symbols] using h
    · simp [Factor.symbols] at h
  · rintro e ihe (n' | e') r r' - - h
    · simp [Factor.symbols] at h
    · -- The closing parenthesis ends the expression.
      have hclose : ∀ r, Stops continues (.mark .rparen :: r) := fun _ => rfl
      simp only [Factor.symbols, List.cons_append, List.append_assoc, List.cons.injEq,
        true_and] at h
      obtain ⟨rfl, hr⟩ := ihe e' _ _ (hclose _) (hclose _) h
      simpa using hr
  · rintro f fs ihf ihfs ⟨f', fs'⟩ r r' hr hr' h
    simp only [Phrase.symbols, factorSymbols_eq_flatMap, List.append_assoc] at h
    obtain ⟨rfl, hrest⟩ := ihf f' _ _ trivial trivial h
    obtain ⟨rfl, hend⟩ := factors_cut ihfs fs' _ _ hr hr' hrest
    exact ⟨rfl, hend⟩
  · rintro p ps ihp ihps ⟨p', ps'⟩ r r' hr hr' h
    simp only [Expression.symbols, phraseSymbols_eq_flatMap, List.append_assoc] at h
    -- An arrow begins no factor, so it ends the phrase before it.
    have harrow : ∀ (p : Phrase) r, Stops opensFactor (.mark .arrow :: p.symbols ++ r) :=
      fun _ _ => rfl
    have hnone : ∀ r, Stops continues r → ∀ (p : Phrase) r',
        r ≠ .mark .arrow :: p.symbols ++ r' := by
      rintro _ hr p r' rfl
      cases hr
    have hmore := Cuts.flatMap (fun x hx => (ihps x hx).cons (.mark .arrow)) harrow
      (fun _ => Stops.opensFactor) hnone
    obtain ⟨rfl, hrest⟩ := ihp p' _ _ (stop_flatMap harrow ps hr.opensFactor)
      (stop_flatMap harrow ps' hr'.opensFactor) h
    obtain ⟨rfl, hend⟩ := hmore ps' _ _ hr hr' hrest
    exact ⟨rfl, hend⟩

theorem Factor.cuts (f : Factor) : Cuts Factor.symbols (fun _ => True) f := expressions_cut.1 f

theorem Expression.cuts (e : Expression) : Cuts Expression.symbols (Stops continues) e :=
  expressions_cut.2.2 e

/-! ### Statements -/

theorem Ended.stops {r : List Symbol} (h : Ended r) {test : Symbol → Bool}
    (htest : test (.mark .semicolon) = false) : Stops test r := by
  rcases r with _ | ⟨w, r⟩
  · rfl
  · have hw : w = .mark .semicolon := by simpa [Ended, Stops] using h
    rw [hw]
    exact htest

theorem Parameter.cuts (x : Parameter) : Cuts Parameter.symbols (fun _ => True) x := by
  rintro x' r r' - - h
  have hclose : ∀ r, Stops continues (.mark .rparen :: r) := fun _ => rfl
  -- Parameters of different kinds begin with different symbols.
  rcases x with _ | n | e <;> rcases x' with _ | n' | e' <;>
    simp only [symbols, List.cons_append, List.nil_append, List.append_assoc, List.cons.injEq,
      true_and, reduceCtorEq, false_and, Symbol.mark.injEq, Symbol.name.injEq] at h
  · exact ⟨rfl, h⟩
  · exact ⟨congrArg Parameter.name h.1, h.2⟩
  · obtain ⟨rfl, hr⟩ := e.cuts e' _ _ (hclose _) (hclose _) h
    simpa using hr

theorem parameters_cut (xs : List Parameter) :
    Cuts (List.flatMap Parameter.symbols) (fun r => ∃ ws, r = .mark .assign :: ws) xs := by
  refine Cuts.flatMap (fun x _ => x.cuts) (fun _ _ => trivial) (fun _ _ => trivial) ?_
  rintro _ ⟨ws, rfl⟩ x r'
  cases x <;> simp [Parameter.symbols]

/-- The names of a list are cut off by anything that is no name. -/
theorem names_cut (ns : List String) : Cuts (List.map Symbol.name) (Stops opensFactor) ns := by
  have hname : ∀ n ∈ ns, Cuts (fun n => [Symbol.name n]) (fun _ => True) n := by
    intro n _ n' r r' _ _ h
    simpa using h
  have hcut : Cuts (List.flatMap fun n => [Symbol.name n]) (Stops opensFactor) ns := by
    refine Cuts.flatMap hname (fun _ _ => trivial) (fun _ _ => trivial) ?_
    rintro _ hr n r' rfl
    cases hr
  simpa only [Cuts, List.map_eq_flatMap] using hcut

theorem Constructor.cuts (c : Constructor) : Cuts symbols (Stops opensFactor) c := by
  rintro ⟨n', args'⟩ r r' hr hr' h
  obtain ⟨n, args⟩ := c
  simp only [symbols, List.cons_append, List.cons.injEq, Symbol.name.injEq] at h
  obtain ⟨rfl, hargs⟩ := h
  obtain ⟨rfl, hend⟩ := factors_cut (fun f _ => f.cuts) args' _ _ hr hr' hargs
  exact ⟨rfl, hend⟩

theorem constructors_cut (cs : List Constructor) : Cuts constructorSymbols Ended cs := by
  have hpipe : ∀ (c : Constructor) r, Stops opensFactor (.mark .pipe :: c.symbols ++ r) :=
    fun _ _ => rfl
  have hnone : ∀ r, Ended r → ∀ (c : Constructor) r', r ≠ .mark .pipe :: c.symbols ++ r' := by
    rintro _ hr c r' rfl
    cases hr
  have hmore : ∀ ds : List Constructor, Cuts (List.flatMap fun d => .mark .pipe :: d.symbols)
      Ended ds := fun ds =>
    Cuts.flatMap (fun c _ => c.cuts.cons (.mark .pipe)) hpipe (fun _ hr => hr.stops rfl) hnone
  rintro cs' r r' hr hr' h
  rcases cs with _ | ⟨c, cs⟩ <;> rcases cs' with _ | ⟨c', cs'⟩
  · exact ⟨rfl, h⟩
  · rw [constructorSymbols, List.nil_append] at h
    rw [h] at hr
    cases hr
  · rw [constructorSymbols, constructorSymbols, List.nil_append] at h
    rw [← h] at hr'
    cases hr'
  · simp only [constructorSymbols, List.cons_append, List.append_assoc, List.cons.injEq,
      true_and] at h
    obtain ⟨rfl, hrest⟩ := c.cuts c' _ _ (stop_flatMap hpipe cs (hr.stops rfl))
      (stop_flatMap hpipe cs' (hr'.stops rfl)) h
    obtain ⟨rfl, hend⟩ := hmore cs cs' _ _ hr hr' hrest
    exact ⟨rfl, hend⟩

theorem constructors_stop (cs : List Constructor) {r : List Symbol} (hr : Ended r) :
    Stops opensFactor (constructorSymbols cs ++ r) := by
  cases cs with
  | nil => exact hr.stops rfl
  | cons c cs => rfl

theorem Statement.cuts (s : Statement) : Cuts symbols Ended s := by
  rintro s' r r' hr hr' h
  have hexpression : ∀ e e' : Expression, e.symbols ++ r = e'.symbols ++ r' → e = e' ∧ r = r' :=
    fun e e' => e.cuts e' r r' (hr.stops rfl) (hr'.stops rfl)
  -- Statements of different kinds begin with different symbols.
  cases s with
  | datatype n params cs =>
    cases s' with
    | datatype n' params' cs' =>
      simp only [symbols, List.cons_append, List.append_assoc, List.cons.injEq, true_and,
        Symbol.name.injEq] at h
      obtain ⟨rfl, hrest⟩ := h
      obtain ⟨rfl, hcs⟩ := names_cut params params' _ _ (constructors_stop cs hr)
        (constructors_stop cs' hr') hrest
      obtain ⟨rfl, hend⟩ := constructors_cut cs cs' _ _ hr hr' hcs
      exact ⟨rfl, hend⟩
    | _ => simp [symbols] at h
  | builtin n type =>
    cases s' with
    | builtin n' type' =>
      simp only [symbols, List.cons_append, List.cons.injEq, true_and, Symbol.name.injEq] at h
      obtain ⟨rfl, hrest⟩ := h
      obtain ⟨rfl, hend⟩ := hexpression type type' hrest
      exact ⟨rfl, hend⟩
    | _ => simp [symbols] at h
  | signature n type =>
    cases s' with
    | signature n' type' =>
      simp only [symbols, List.cons_append, List.cons.injEq, true_and, Symbol.name.injEq] at h
      obtain ⟨rfl, hrest⟩ := h
      obtain ⟨rfl, hend⟩ := hexpression type type' hrest
      exact ⟨rfl, hend⟩
    | _ => simp [symbols] at h
  | clause n first more body =>
    cases s' with
    | clause n' first' more' body' =>
      simp only [symbols, List.cons_append, List.append_assoc, List.cons.injEq, true_and,
        Symbol.name.injEq] at h
      obtain ⟨rfl, hrest⟩ := h
      obtain ⟨hparams, hbody⟩ := parameters_cut (first :: more) (first' :: more') _ _ ⟨_, rfl⟩
        ⟨_, rfl⟩ hrest
      obtain ⟨rfl, rfl⟩ := List.cons.inj hparams
      obtain ⟨rfl, hend⟩ := hexpression body body' (List.cons.inj hbody).2
      exact ⟨rfl, hend⟩
    | _ => simp [symbols] at h

/-- No statement begins with a semicolon. -/
theorem Statement.not_semicolon (s : Statement) (r : List Symbol) :
    Stops (· == .mark .semicolon) (s.symbols ++ r) := by
  cases s <;> rfl

theorem semicolons_cut (n : Nat) : Cuts semicolons (Stops (· == .mark .semicolon)) n := by
  intro n' r r' hr hr' h
  induction n generalizing n' with
  | zero =>
    cases n' with
    | zero => exact ⟨rfl, h⟩
    | succ n' =>
      rw [show r = semicolons (n' + 1) ++ r' from h] at hr
      cases hr
  | succ n ih =>
    cases n' with
    | zero =>
      rw [show r' = semicolons (n + 1) ++ r from h.symm] at hr'
      cases hr'
    | succ n' =>
      obtain ⟨rfl, hend⟩ := ih n' (List.cons.inj h).2
      exact ⟨rfl, hend⟩

theorem semicolons_ended (n : Nat) : Ended (semicolons n) := by
  cases n <;> rfl

theorem separated_ended (s : Nat × Statement) (r : List Symbol) : Ended (separated s ++ r) := rfl

theorem separated_cuts (s : Nat × Statement) : Cuts separated Ended s := by
  rintro s' r r' hr hr' h
  rw [separated, separated, List.append_assoc, List.append_assoc] at h
  obtain ⟨hn, hrest⟩ := semicolons_cut _ _ _ _ (s.2.not_semicolon r) (s'.2.not_semicolon r') h
  obtain ⟨hs, hend⟩ := s.2.cuts s'.2 _ _ hr hr' hrest
  exact ⟨Prod.ext (Nat.succ.inj hn) hs, hend⟩

/-- Semicolons alone are no statement. -/
theorem semicolons_ne (n k : Nat) (s : Statement) (r : List Symbol) :
    semicolons n ≠ semicolons k ++ (s.symbols ++ r) := by
  intro h
  obtain ⟨-, hrest⟩ := semicolons_cut n k [] _ rfl (s.not_semicolon r) (by simpa using h)
  cases s <;> cases hrest

theorem separated_cut (more : List (Nat × Statement)) :
    Cuts (List.flatMap separated) (fun r => ∃ n, r = semicolons n) more := by
  refine Cuts.flatMap (fun s _ => separated_cuts s) separated_ended ?_ ?_
  · rintro _ ⟨n, rfl⟩
    exact semicolons_ended n
  · rintro _ ⟨n, rfl⟩ s r' h
    rw [separated, List.append_assoc] at h
    exact semicolons_ne n _ s.2 r' h

/-- A text has at most one derivation. -/
theorem Source.symbols_injective {d d' : Source} (h : d.symbols = d'.symbols) : d = d' := by
  cases d with
  | empty n =>
    cases d' with
    | empty n' =>
      have hlength := congrArg List.length h
      simp only [symbols, semicolons, List.length_replicate] at hlength
      rw [hlength]
    | of leading' first' more' trailing' => exact absurd h (semicolons_ne _ _ _ _)
  | of leading first more trailing =>
    cases d' with
    | empty n' => exact absurd h.symm (semicolons_ne _ _ _ _)
    | of leading' first' more' trailing' =>
      -- Behind a statement comes another with a semicolon before it, or nothing but semicolons.
      have hended : ∀ (more : List (Nat × Statement)) n,
          Ended (more.flatMap separated ++ semicolons n) :=
        fun more n => stop_flatMap separated_ended more (semicolons_ended n)
      simp only [symbols] at h
      obtain ⟨rfl, hrest⟩ := semicolons_cut _ _ _ _ (first.not_semicolon _)
        (first'.not_semicolon _) h
      obtain ⟨rfl, hmore⟩ := first.cuts first' _ _ (hended more trailing)
        (hended more' trailing') hrest
      obtain ⟨rfl, hend⟩ := separated_cut more more' _ _ ⟨trailing, rfl⟩ ⟨trailing', rfl⟩ hmore
      have hlength := congrArg List.length hend
      simp only [semicolons, List.length_replicate] at hlength
      rw [hlength]

end Grammar

end Clausal
