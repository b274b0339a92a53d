/-
  Clausal.Proofs.RoundTrip

  Printing and parsing are inverse to each other up to parentheses.

  An expression can be written as a factor, as a phrase and as a whole expression, each time with
  the parentheses that the place asks for (`Written`): as an element of an application it stands in
  parentheses if it is compound, as an element of an arrow if it is itself an arrow. The text is
  then what the grammar derives from a tree that means the term, groups aside, and so the parser
  reads it back. Declarations are put together of such expressions.
-/
import Clausal.Proofs.Spelling
import Mathlib.Data.List.Forall2
import Mathlib.Tactic.Choose

namespace Clausal

open Grammar Term

instance : Nonempty Factor := ⟨.name ""⟩

instance : Nonempty Phrase := ⟨.of (.name "") []⟩

instance : Nonempty Constructor := ⟨⟨"", []⟩⟩

instance : Nonempty Parameter := ⟨.wildcard⟩

instance : Nonempty Statement := ⟨.datatype "" [] []⟩

/-! ## Expressions -/

/-- A text is written by a rule, and means a term as far as groups do not matter. -/
def Writes {δ : Type} (written : δ → List Symbol) (meaning : δ → Term) (s : String) (t : Term)
    (d : δ) : Prop :=
  Spelled s (written d) ∧ (meaning d).strip = t.strip

/-- A term can be written by each of the rules for expressions. -/
structure Written (t : Term) : Prop where
  factor : ∃ f, Writes Factor.symbols Factor.term (element isCompound t) t f
  phrase : ∃ p, Writes Phrase.symbols Phrase.term (element isChain t) t p
  expression : ∃ e, Writes Expression.symbols Expression.term t.render t e

theorem element_of_not {wrap : Term → Bool} {t : Term} (h : wrap t = false) :
    element wrap t = t.render := by
  rw [element, h]
  rfl

theorem element_of {wrap : Term → Bool} {t : Term} (h : wrap t = true) :
    element wrap t = "(" ++ t.render ++ ")" := by
  rw [element, if_pos h]

/-- A factor alone is a phrase, and a phrase alone an expression. -/
theorem Phrase.writes_factor {s : String} {t : Term} {f : Factor}
    (h : Writes Factor.symbols Factor.term s t f) :
    Writes Phrase.symbols Phrase.term s t (.of f []) := by
  refine ⟨?_, h.2⟩
  rw [Phrase.symbols, factorSymbols, List.append_nil]
  exact h.1

theorem Expression.writes_phrase {s : String} {t : Term} {p : Phrase}
    (h : Writes Phrase.symbols Phrase.term s t p) :
    Writes Expression.symbols Expression.term s t (.of p []) := by
  refine ⟨?_, h.2⟩
  rw [Expression.symbols, phraseSymbols, List.append_nil]
  exact h.1

/-- An expression in parentheses is a factor. -/
theorem Factor.writes_paren {s : String} {t : Term} {e : Expression}
    (h : Writes Expression.symbols Expression.term s t e) :
    Writes Factor.symbols Factor.term ("(" ++ s ++ ")") t (.paren e) := by
  refine ⟨?_, h.2⟩
  have hinner := gap_lparen.append_spelled h.1
  intro rest _
  rw [(hinner.append_separator separator_rparen) rest, Factor.symbols]
  simp

theorem strip_joined {δ : Type} {kind : Sequence} {term : Term → δ} {meaning : δ → Term}
    {x y : Term} {xs : List Term}
    (h : ∀ z ∈ x :: y :: xs, (meaning (term z)).strip = z.strip) :
    (joined kind (meaning (term x)) (((y :: xs).map term).map meaning)).strip
      = (Term.seq kind (x :: y :: xs)).strip := by
  have hmap : (x :: y :: xs).map (strip ∘ meaning ∘ term) = (x :: y :: xs).map strip :=
    List.map_congr_left h
  simpa [joined, strip] using hmap

theorem Written.app {x y : Term} {xs : List Term} (h : ∀ z ∈ x :: y :: xs, Written z) :
    Written (.app (x :: y :: xs)) := by
  have hfactor : ∀ z ∈ x :: y :: xs, ∃ f : Factor,
      Spelled (element isCompound z) f.symbols ∧ f.term.strip = z.strip :=
    fun z hz => (h z hz).factor
  choose! f hspelled hstrip using hfactor
  have hphrase : Writes Phrase.symbols Phrase.term (Term.app (x :: y :: xs)).render
      (.app (x :: y :: xs)) (.of (f x) ((y :: xs).map f)) := by
    refine ⟨?_, ?_⟩
    · rw [render_app, Phrase.symbols, factorSymbols_eq_flatMap, List.flatMap_map]
      exact separator_blank.joinWith (hspelled x List.mem_cons_self)
        fun z hz => hspelled z (List.mem_cons_of_mem _ hz)
    · rw [Phrase.term, factorTerms_eq_map]
      exact strip_joined hstrip
  have hexpression := Expression.writes_phrase hphrase
  have hparen := Factor.writes_paren hexpression
  have hcompound : isCompound (.app (x :: y :: xs)) = true := by simp [isCompound]
  have hplain : isChain (.app (x :: y :: xs)) = false := rfl
  rw [← element_of hcompound] at hparen
  rw [← element_of_not hplain] at hphrase
  exact ⟨⟨_, hparen⟩, ⟨_, hphrase⟩, ⟨_, hexpression⟩⟩

theorem Written.arrow {x y : Term} {xs : List Term} (h : ∀ z ∈ x :: y :: xs, Written z) :
    Written (.arrow (x :: y :: xs)) := by
  have hphrase : ∀ z ∈ x :: y :: xs, ∃ p : Phrase,
      Spelled (element isChain z) p.symbols ∧ p.term.strip = z.strip :=
    fun z hz => (h z hz).phrase
  choose! p hspelled hstrip using hphrase
  have hexpression : Writes Expression.symbols Expression.term (Term.arrow (x :: y :: xs)).render
      (.arrow (x :: y :: xs)) (.of (p x) ((y :: xs).map p)) := by
    refine ⟨?_, ?_⟩
    · rw [render_arrow, Expression.symbols, phraseSymbols_eq_flatMap, List.flatMap_map]
      exact separator_arrow.joinWith (hspelled x List.mem_cons_self)
        fun z hz => hspelled z (List.mem_cons_of_mem _ hz)
    · rw [Expression.term, phraseTerms_eq_map]
      exact strip_joined hstrip
  have hparen := Factor.writes_paren hexpression
  have hcompound : isCompound (.arrow (x :: y :: xs)) = true := by simp [isCompound]
  have hchain : isChain (.arrow (x :: y :: xs)) = true := by simp [isChain]
  have hphrase := Phrase.writes_factor hparen
  rw [← element_of hcompound] at hparen
  rw [← element_of hchain] at hphrase
  exact ⟨⟨_, hparen⟩, ⟨_, hphrase⟩, ⟨_, hexpression⟩⟩

theorem Written.ident {n : String} (h : Lexical n) : Written (.ident n) := by
  have hfactor : Writes Factor.symbols Factor.term n (.ident n) (.name n) := ⟨h.spelled, rfl⟩
  have hphrase := Phrase.writes_factor hfactor
  exact ⟨⟨_, hfactor⟩, ⟨_, hphrase⟩, ⟨_, Expression.writes_phrase hphrase⟩⟩

/-- A group is written as what it holds. -/
theorem Written.group {t : Term} (hsolid : t.Solid) (h : Written t) : Written (.group t) := by
  have hrender : (Term.group t).render = t.render := by rw [render, hsolid.inside_eq]
  have helement : ∀ wrap : Term → Bool, wrap (.group t) = wrap t →
      element wrap (.group t) = element wrap t := by
    intro wrap hwrap
    rw [element, element, hwrap, hrender]
  obtain ⟨⟨f, hf⟩, ⟨p, hp⟩, ⟨e, he⟩⟩ := h
  refine ⟨⟨f, ?_⟩, ⟨p, ?_⟩, ⟨e, ?_⟩⟩
  · rw [helement _ rfl]
    exact hf
  · rw [helement _ rfl]
    exact hp
  · rw [hrender]
    exact he

theorem Written.of_formed {t : Term} (h : t.Formed Lexical 2) : Written t := by
  induction h with
  | ident hn => exact .ident hn
  | group ht ih => exact .group ht.solid ih
  | @seq k xs hk hlength _ ih =>
    obtain ⟨x, y, xs, rfl⟩ : ∃ x y ys, xs = x :: y :: ys := by
      rcases xs with _ | ⟨x, _ | ⟨y, ys⟩⟩
      · simp at hlength
      · simp at hlength
      · exact ⟨x, y, ys, rfl⟩
    cases k with
    | application => exact .app ih
    | arrow => exact .arrow ih
    | entity => exact absurd rfl hk

/-! ## Declarations -/

/-- A constructor of a type: a name that is applied to expressions. -/
def IsConstructor (c : Term) : Prop :=
  ∃ n args, c = .app (.ident n :: args) ∧ Lexical n ∧ ∀ x ∈ args, x.Formed Lexical 2

/-- A parameter of a clause: a wildcard or an expression. -/
def IsParameter (x : Term) : Prop := x = .ident "_" ∨ x.Formed Lexical 2

/-- Declarations: types, signatures, builtin signatures and clauses. -/
inductive Declared : Term → Prop where
  | entity {n : String} {params : List String} {cs : List Term} :
      Lexical n → (∀ p ∈ params, Lexical p) → (∀ c ∈ cs, IsConstructor c) →
      Declared (.entity (.ident n :: (params.map .ident ++ cs)))
  | isa {n : String} {type : Term} :
      Lexical n → type.Formed Lexical 2 → Declared (.isa (.ident n) type)
  | builtin {n : String} {type : Term} :
      Lexical n → type.Formed Lexical 2 → Declared (.builtin (.ident n) type)
  | define {n : String} {params : List Term} {body : Term} :
      Lexical n → params ≠ [] → (∀ x ∈ params, IsParameter x) → body.Formed Lexical 2 →
      Declared (.define (.app (.ident n :: params)) body)

theorem IsConstructor.solid {c : Term} (h : IsConstructor c) : c.Solid := by
  obtain ⟨n, args, rfl, -, hargs⟩ := h
  refine .app (List.forall_mem_cons.2 ⟨.ident n, ?_⟩)
  exact fun x hx => (hargs x hx).solid

theorem IsConstructor.isApp {c : Term} (h : IsConstructor c) : c.isApp = true := by
  obtain ⟨n, args, rfl, -, -⟩ := h
  rfl

theorem IsParameter.solid {x : Term} (h : IsParameter x) : x.Solid := by
  obtain rfl | h := h
  · exact .ident "_"
  · exact h.solid

theorem pattern_solid {n : String} {params : List Term} (h : ∀ x ∈ params, IsParameter x) :
    (Term.app (.ident n :: params)).Solid := by
  refine .app (List.forall_mem_cons.2 ⟨.ident n, ?_⟩)
  exact fun x hx => (h x hx).solid

theorem entity_solid (n : String) (params : List String) {cs : List Term}
    (h : ∀ c ∈ cs, c.isApp = true ∧ c.Solid) :
    (Term.entity (.ident n :: (params.map .ident ++ cs))).Solid := by
  have helems : ∀ x ∈ Term.ident n :: (params.map Term.ident ++ cs),
      x.isGroup = false ∧ x.Solid := by
    intro x hx
    rw [List.mem_cons, List.mem_append, List.mem_map] at hx
    rcases hx with rfl | ⟨p, -, rfl⟩ | hx
    · exact ⟨rfl, .ident n⟩
    · exact ⟨rfl, .ident p⟩
    · obtain ⟨happ, hsolid⟩ := h x hx
      refine ⟨?_, hsolid⟩
      cases x <;> first | rfl | cases happ
  exact .seq (fun _ x hx => (helems x hx).1) fun x hx => (helems x hx).2

theorem Declared.solid {d : Term} (h : Declared d) : d.Solid := by
  cases h with
  | @entity n params cs hn hparams hcs =>
    exact entity_solid n params fun c hc => ⟨(hcs c hc).isApp, (hcs c hc).solid⟩
  | isa hn htype => exact .rel (.ident _) htype.solid
  | builtin hn htype => exact .builtin (.ident _) htype.solid
  | define hn hne hparams hbody => exact .rel (pattern_solid hparams) hbody.solid

theorem IsParameter.writes {x : Term} (h : IsParameter x) :
    ∃ p, Writes Parameter.symbols Parameter.term (element isCompound x) x p := by
  obtain rfl | h := h
  · exact ⟨.wildcard, spelled_wildcard, rfl⟩
  · -- A factor is a parameter too, and parentheses do not matter.
    obtain ⟨f, hf⟩ := (Written.of_formed h).factor
    cases f with
    | name n => exact ⟨.name n, hf⟩
    | paren e => exact ⟨.paren e, hf⟩

theorem IsConstructor.writes {c : Term} (h : IsConstructor c) :
    ∃ d, Writes Constructor.symbols Constructor.term c.render c d := by
  obtain ⟨n, args, rfl, hn, hargs⟩ := h
  have hfactor : ∀ x ∈ args, ∃ f : Factor,
      Spelled (element isCompound x) f.symbols ∧ f.term.strip = x.strip :=
    fun x hx => (Written.of_formed (hargs x hx)).factor
  choose! f hspelled hstrip using hfactor
  refine ⟨⟨n, args.map f⟩, ?_, ?_⟩
  · rw [render_app, Constructor.symbols, List.flatMap_map]
    exact separator_blank.joinWith hn.spelled hspelled
  · have hmap : args.map (strip ∘ Factor.term ∘ f) = args.map strip := List.map_congr_left hstrip
    simp [Constructor.term, strip, hmap]

/-- The parameters of a type are the names behind its own, up to the first constructor. -/
theorem params_entity (n : String) (params : List String) {cs : List Term}
    (h : ∀ c ∈ cs, IsConstructor c) :
    Term.params (.ident n :: (params.map Term.ident ++ cs)) = params.map Term.ident := by
  have hcs : cs.takeWhile isIdent = [] := by
    cases cs with
    | nil => rfl
    | cons c cs =>
      obtain ⟨m, args, rfl, -, -⟩ := h c List.mem_cons_self
      rfl
  have hparams : ∀ x ∈ params.map Term.ident, x.isIdent = true := by simp [isIdent]
  rw [Term.params, List.tail_cons, List.takeWhile_append_of_pos hparams, hcs, List.append_nil]

theorem constructors_entity (n : String) (params : List String) {cs : List Term}
    (h : ∀ c ∈ cs, IsConstructor c) :
    Term.constructors (.ident n :: (params.map Term.ident ++ cs)) = cs := by
  have hparams : (params.map Term.ident).filter isApp = [] := by
    rw [List.filter_eq_nil_iff, List.forall_mem_map]
    intro p _ happ
    cases happ
  have hcs : cs.filter isApp = cs := List.filter_eq_self.2 fun c hc => (h c hc).isApp
  rw [Term.constructors, List.tail_cons, List.filter_append, hparams, hcs, List.nil_append]

theorem entity_writes {n : String} {params : List String} {cs : List Term} (hn : Lexical n)
    (hparams : ∀ p ∈ params, Lexical p) (hcs : ∀ c ∈ cs, IsConstructor c) :
    ∃ s, Writes Statement.symbols Statement.term
      (Term.entity (.ident n :: (params.map .ident ++ cs))).render
      (.entity (.ident n :: (params.map .ident ++ cs))) s := by
  have hconstructor : ∀ c ∈ cs, ∃ d : Constructor,
      Spelled c.render d.symbols ∧ d.term.strip = c.strip := fun c hc => (hcs c hc).writes
  choose! d hspelled hstrip using hconstructor
  refine ⟨.datatype n params (cs.map d), ?_, ?_⟩
  · have hname : Spelled (joinWith " " (n :: params.map id))
        ([.name n] ++ params.flatMap fun p => [] ++ [.name p]) :=
      separator_blank.joinWith hn.spelled fun p hp => (hparams p hp).spelled
    have hkeyword : Gap "decltype " [.keyword "decltype"] :=
      gap_keyword (s := "decltype") (by decide)
    have hhead := hkeyword.append_spelled hname
    have htext : "decltype " ++ (Term.ident n).render
        ++ String.join ((params.map Term.ident).map (" " ++ ·.render))
        = "decltype " ++ joinWith " " (n :: params.map id) := by
      rw [joinWith_cons, List.map_map, List.map_map, String.append_assoc]
      rfl
    have hnames : params.map Symbol.name = params.flatMap fun p => [.name p] := List.map_eq_flatMap
    rw [render_entity, params_entity n params hcs, constructors_entity n params hcs, htext,
      Statement.symbols, hnames]
    cases cs with
    | nil =>
      rw [List.isEmpty_nil, if_pos rfl, String.append_empty]
      simpa [constructorSymbols] using hhead
    | cons c cs =>
      rw [List.forall_mem_cons] at hspelled
      have hall := (hhead.append_separator separator_assign).append_spelled
        (separator_pipe.joinWith hspelled.1 hspelled.2)
      rw [List.isEmpty_cons, if_neg (by decide), ← String.append_assoc, List.map_cons,
        List.map_cons, constructorSymbols, List.flatMap_map]
      simpa using hall
  · have hmap : cs.map (strip ∘ Constructor.term ∘ d) = cs.map strip := List.map_congr_left hstrip
    simp [Statement.term, strip, hmap]

theorem Declared.writes {d : Term} (h : Declared d) :
    ∃ s, Writes Statement.symbols Statement.term d.render d s := by
  cases h with
  | entity hn hparams hcs => exact entity_writes hn hparams hcs
  | @isa n type hn htype =>
    obtain ⟨e, hspelled, hstrip⟩ := (Written.of_formed htype).expression
    refine ⟨.signature n e, ?_, ?_⟩
    · rw [render, (Solid.ident n).side_eq, htype.solid.side_eq]
      exact (hn.spelled.append_separator separator_colon).append_spelled hspelled
    · simp [Statement.term, strip, hstrip]
  | @builtin n type hn htype =>
    obtain ⟨e, hspelled, hstrip⟩ := (Written.of_formed htype).expression
    refine ⟨.builtin n e, ?_, ?_⟩
    · rw [render, (Solid.ident n).side_eq, htype.solid.side_eq]
      have hkeyword : Gap "builtin " [.keyword "builtin"] :=
        gap_keyword (s := "builtin") (by decide)
      exact hkeyword.append_spelled
        ((hn.spelled.append_separator separator_colon).append_spelled hspelled)
    · simp [Statement.term, strip, hstrip]
  | @define n params body hn hne hparams hbody =>
    obtain ⟨e, hspelled, hstrip⟩ := (Written.of_formed hbody).expression
    have hparameter : ∀ x ∈ params, ∃ p : Parameter,
        Spelled (element isCompound x) p.symbols ∧ p.term.strip = x.strip :=
      fun x hx => (hparams x hx).writes
    choose! p hparameter hparameter_strip using hparameter
    obtain ⟨first, more, rfl⟩ := List.exists_cons_of_ne_nil hne
    refine ⟨.clause n (p first) (more.map p) e, ?_, ?_⟩
    · rw [render, (pattern_solid hparams).side_eq, hbody.solid.side_eq, render_app]
      have hpattern := separator_blank.joinWith hn.spelled hparameter
      have hall := ((gap_rule.append_spelled hpattern).append_separator
        separator_assign).append_spelled hspelled
      have hsymbols : (Statement.clause n (p first) (more.map p) e).symbols
          = [.mark .rule] ++ ([.name n] ++ (first :: more).flatMap fun x => [] ++ (p x).symbols)
            ++ [.mark .assign] ++ e.symbols := by
        simp [Statement.symbols, List.flatMap_map]
      rw [hsymbols]
      exact hall
    · have hmap : (first :: more).map (strip ∘ Parameter.term ∘ p) = (first :: more).map strip :=
        List.map_congr_left hparameter_strip
      simpa [Statement.term, strip, hstrip] using hmap

/-! ## Reading back -/

theorem Factor.term_solid (f : Factor) : f.term.Solid := by
  have hformed : f.term.Formed (fun _ => True) 2 := f.term_formed fun _ _ => trivial
  exact hformed.solid

theorem Expression.term_solid (e : Expression) : e.term.Solid := by
  have hformed : e.term.Formed (fun _ => True) 2 := e.term_formed fun _ _ => trivial
  exact hformed.solid

theorem Parameter.term_solid (x : Parameter) : x.term.Solid := by
  cases x with
  | wildcard => exact .ident "_"
  | name n => exact .ident n
  | paren e => exact Expression.term_solid e

theorem Constructor.term_solid (c : Constructor) : c.term.Solid := by
  refine .app (List.forall_mem_cons.2 ⟨.ident c.name, ?_⟩)
  rw [List.forall_mem_map]
  exact fun f _ => Factor.term_solid f

theorem Statement.term_solid (s : Statement) : s.term.Solid := by
  cases s with
  | datatype n params cs =>
    refine entity_solid n params ?_
    rw [List.forall_mem_map]
    exact fun c _ => ⟨rfl, Constructor.term_solid c⟩
  | builtin n type => exact .builtin (.ident n) (Expression.term_solid type)
  | signature n type => exact .rel (.ident n) (Expression.term_solid type)
  | clause n first more body =>
    refine .rel (.app (List.forall_mem_cons.2 ⟨.ident n, ?_⟩)) (Expression.term_solid body)
    rw [List.forall_mem_map]
    exact fun x _ => Parameter.term_solid x

/-- Terms that differ in groups only have the same text. -/
theorem render_eq_of_strip_eq {t t' : Term} (ht : t.Solid) (ht' : t'.Solid)
    (h : t'.strip = t.strip) : t'.render = t.render := by
  rw [← ht'.render_strip, h, ht.render_strip]

theorem Expression.head?_ne_invalid (e : Expression) :
    e.symbols.head? ≠ some (.mark .invalid) := by
  obtain ⟨⟨f, fs⟩, ps⟩ := e
  cases f <;> simp [Expression.symbols, Phrase.symbols, Factor.symbols]

theorem Statement.head?_ne_invalid (s : Statement) (r : List Symbol) :
    (s.symbols ++ r).head? ≠ some (.mark .invalid) := by
  cases s <;> simp [Statement.symbols]

theorem exists_parseExpression_render {t : Term} (h : t.Formed Lexical 2) :
    ∃ t', parseExpression (Text.ofString t.render) = .ok t' ∧ t'.strip = t.strip ∧
      t'.render = t.render := by
  obtain ⟨e, hspelled, hstrip⟩ := (Written.of_formed h).expression
  have hsymbols := hspelled.symbols_eq
  have hmark : (Text.ofString t.render).dropMark = Text.ofString t.render := by
    refine Text.dropMark_eq ?_
    rw [hsymbols]
    exact Expression.head?_ne_invalid e
  refine ⟨e.term, parseExpression_iff.2 ⟨e, false, ?_, rfl⟩, hstrip,
    render_eq_of_strip_eq h.solid (Expression.term_solid e) hstrip⟩
  rw [hmark, hsymbols]
  exact List.append_nil _

/-- Declarations one after the other are a text of the grammar. -/
theorem exists_source {ds : List Term} (h : ∀ d ∈ ds, Declared d) :
    ∃ src : Source, Text.symbols (Text.ofString (joinWith " ;\n" (ds.map render))) = src.symbols ∧
      src.symbols.head? ≠ some (.mark .invalid) ∧
      List.Forall₂ (fun d' d => d'.strip = d.strip ∧ d'.render = d.render) src.terms ds := by
  have hstatement : ∀ d ∈ ds, ∃ s : Statement,
      Spelled d.render s.symbols ∧ s.term.strip = d.strip := fun d hd => (h d hd).writes
  choose! s hspelled hstrip using hstatement
  have halike : ∀ d ∈ ds, (s d).term.strip = d.strip ∧ (s d).term.render = d.render := by
    intro d hd
    exact ⟨hstrip d hd,
      render_eq_of_strip_eq (h d hd).solid (Statement.term_solid (s d)) (hstrip d hd)⟩
  cases ds with
  | nil => exact ⟨.empty 0, Text.symbols_nil, by simp [Source.symbols, semicolons], .nil⟩
  | cons d ds =>
    rw [List.forall_mem_cons] at hspelled halike
    refine ⟨.of 0 (s d) (ds.map fun d => (0, s d)) 0, ?_, ?_, ?_⟩
    · have hall := separator_semicolon.joinWith hspelled.1 hspelled.2
      rw [List.map_cons, hall.symbols_eq, Source.symbols, List.flatMap_map]
      simp [semicolons, separated]
    · exact Statement.head?_ne_invalid (s d) _
    · rw [Source.terms, List.map_map]
      refine .cons halike.1 ?_
      rw [List.forall₂_map_left_iff, List.forall₂_same]
      exact halike.2

/-- Printing and parsing are inverse up to parentheses. The text of an expression, and the texts of
    any declarations with semicolons between them, are read back as terms that are the same once the
    groups are taken off, and that have the same text. -/
theorem parse_render :
    (∀ t : Term, t.Formed Lexical 2 →
      ∃ t', parseExpression (Text.ofString t.render) = .ok t' ∧ t'.strip = t.strip ∧
        t'.render = t.render) ∧
    ∀ (ds : List Term) (file : String), (∀ d ∈ ds, Declared d) →
      ∃ ds', parseProgram (Text.ofString (joinWith " ;\n" (ds.map render))) file = .ok ds' ∧
        List.Forall₂ (fun d' d => d'.strip = d.strip ∧ d'.render = d.render) ds' ds := by
  refine ⟨fun t h => exists_parseExpression_render h, fun ds file h => ?_⟩
  obtain ⟨src, hsymbols, hfirst, halike⟩ := exists_source h
  refine ⟨src.terms, parseProgram_iff.2 ⟨src, ?_, rfl⟩, halike⟩
  rw [Text.dropMark_eq (by rw [hsymbols]; exact hfirst), hsymbols]

/-- An application to an application and to an arrow, neither of them in a group. -/
def nestedCall : Term :=
  .app [.ident "f", .app [.ident "g", .ident "x"], .arrow [.ident "a", .ident "b"]]

/-- A clause with a wildcard and a compound parameter. -/
def nestedClause : Term :=
  .define (.app [.ident "f", .ident "_", .app [.ident "g", .ident "x"]]) (.group (.ident "x"))

theorem parse_render_nested :
    (∃ t', parseExpression (Text.ofString "f (g x) (a -> b)") = .ok t' ∧ t'.strip = nestedCall ∧
        t'.render = "f (g x) (a -> b)") ∧
      ∃ ds', parseProgram (Text.ofString "> f _ (g x) = x ;\n> f _ (g x) = x") "" = .ok ds' ∧
        List.Forall₂ (fun d' d => d'.strip = d.strip ∧ d'.render = d.render) ds'
          [nestedClause, nestedClause] := by
  have hf : Lexical "f" := .of_word rfl rfl rfl rfl
  have hg : Lexical "g" := .of_word rfl rfl rfl rfl
  have hx : Lexical "x" := .of_word rfl rfl rfl rfl
  have ha : Lexical "a" := .of_word rfl rfl rfl rfl
  have hb : Lexical "b" := .of_word rfl rfl rfl rfl
  have hpair : ∀ (k : Sequence) (m n : String), k ≠ .entity → Lexical m → Lexical n →
      (Term.seq k [.ident m, .ident n]).Formed Lexical 2 := by
    intro k m n hk hm hn
    refine .seq hk (Nat.le_refl 2) ?_
    simp only [List.forall_mem_cons]
    exact ⟨.ident hm, .ident hn, by simp⟩
  have hcall : nestedCall.Formed Lexical 2 := by
    refine .seq (by decide) (by decide) ?_
    simp only [List.forall_mem_cons]
    exact ⟨.ident hf, hpair _ _ _ (by decide) hg hx, hpair _ _ _ (by decide) ha hb, by simp⟩
  have hclause : Declared nestedClause := by
    refine .define hf (by simp) ?_ (.group (.ident hx))
    simp only [List.forall_mem_cons]
    exact ⟨.inl rfl, .inr (hpair _ _ _ (by decide) hg hx), by simp⟩
  refine ⟨parse_render.1 nestedCall hcall, ?_⟩
  exact parse_render.2 [nestedClause, nestedClause] "" (by simp [hclause])

end Clausal
