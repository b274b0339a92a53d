/-
  Clausal.Proofs.Reading

  Steps of the parser and the rules of the grammar.

  `Parser.Reads` says that a parser has read some symbols and what its stack has become.
  `Parser.Obeys` ties a step to a rule: whatever the step reads is derived by the rule, and
  whatever the rule derives is read by the step, provided that what stands behind it cannot be
  taken for more of it. Rules are put together as the steps are: one after the other
  (`Obeys.bind`), with an action on the stack at the end (`Obeys.finish`), and again and again
  (`Obeys.many`).
-/
import Clausal.Parser.Grammar
import Clausal.Proofs.Derivation

namespace Clausal.Parser

open Grammar

theorem bind_eq_ok_iff {x : Except Failure Parser} {f : Step} {q : Parser} :
    (x >>= f) = .ok q ↔ ∃ m, x = .ok m ∧ f m = .ok q := by
  cases x with
  | error e => simp [bind, Except.bind]
  | ok m => simp [bind, Except.bind]

/-! ## Reading symbols -/

/-- The symbols that are still to be read. -/
def symbols (p : Parser) : List Symbol := p.tokens.map Token.symbol

/-- The end token is one, and none of the others is. -/
structure Sound (p : Parser) : Prop where
  stop : p.stop.kind = .eof
  inner : ∀ t ∈ p.tokens, t.kind ≠ .eof

theorem Sound.advance {p : Parser} (hp : p.Sound) : p.advance.Sound :=
  ⟨hp.stop, fun t ht => hp.inner t (List.mem_of_mem_tail ht)⟩

/-- A parser becomes another by reading some symbols, with a certain stack afterwards. -/
structure Reads (p : Parser) (ws : List Symbol) (stack : List Term) (q : Parser) : Prop where
  symbols : p.symbols = ws ++ q.symbols
  left : q = { p with tokens := p.tokens.drop ws.length, stack := stack }

namespace Reads

variable {p q : Parser} {ws ws' : List Symbol} {w : Symbol} {stack : List Term}

theorem stack_eq (h : p.Reads ws stack q) : q.stack = stack := by rw [h.left]

theorem length_eq (h : p.Reads ws stack q) : p.tokens.length = ws.length + q.tokens.length := by
  have hlength := congrArg List.length h.symbols
  simpa only [Parser.symbols, List.length_map, List.length_append] using hlength

theorem sound (h : p.Reads ws stack q) (hp : p.Sound) : q.Sound := by
  rw [h.left]
  exact ⟨hp.stop, fun t ht => hp.inner t (List.mem_of_mem_drop ht)⟩

@[simp] theorem nil_iff : p.Reads [] stack q ↔ q = { p with stack := stack } := by
  constructor
  · intro h
    exact h.left
  · rintro rfl
    exact ⟨rfl, rfl⟩

/-- What was on the stack before does not matter. -/
@[simp] theorem push_iff {t : Term} : (p.push t).Reads ws stack q ↔ p.Reads ws stack q :=
  ⟨fun h => ⟨h.symbols, h.left⟩, fun h => ⟨h.symbols, h.left⟩⟩

theorem cons_iff :
    p.Reads (w :: ws) stack q ↔ p.symbols.head? = some w ∧ p.advance.Reads ws stack q := by
  obtain ⟨file, tokens, stop, old⟩ := p
  cases tokens with
  | nil =>
    constructor
    · intro h
      cases h.symbols
    · rintro ⟨h, -⟩
      cases h
  | cons t tokens =>
    constructor
    · intro h
      obtain ⟨hw, hws⟩ := List.cons.inj h.symbols
      exact ⟨congrArg some hw, hws, h.left⟩
    · rintro ⟨hw, hws, hleft⟩
      exact ⟨congrArg₂ List.cons (Option.some.inj hw) hws, hleft⟩

/-- Symbols are read one part after the other, whatever the stack is in between. -/
theorem append_iff (middle : List Term) :
    p.Reads (ws ++ ws') stack q ↔ ∃ m, p.Reads ws middle m ∧ m.Reads ws' stack q := by
  induction ws generalizing p with
  | nil =>
    constructor
    · intro h
      exact ⟨{ p with stack := middle }, nil_iff.2 rfl, h.symbols, h.left⟩
    · rintro ⟨m, hm, h⟩
      rw [nil_iff] at hm
      subst hm
      exact ⟨h.symbols, h.left⟩
  | cons w ws ih =>
    simp only [List.cons_append, cons_iff, ih, and_assoc, exists_and_left]

end Reads

/-! ## Looking at the next symbol -/

/-- Whether a symbol is a name. -/
def isName : Symbol → Bool
  | .name _ => true
  | _ => false

/-- Whether a symbol is a keyword. -/
def isKeyword : Symbol → Bool
  | .keyword _ => true
  | _ => false

/-- Whether the next symbol passes a test. -/
def next (test : Symbol → Bool) (p : Parser) : Bool := p.symbols.head?.any test

theorem next_beq_iff {p : Parser} {w : Symbol} :
    p.next (· == w) = true ↔ p.symbols.head? = some w := by
  rw [next]
  cases p.symbols.head? <;> simp

/-- The current token is looked at by its kind, which its symbol tells. -/
theorem is_eq_next {p : Parser} (hp : p.Sound) {kind : Token.Kind} (heof : kind ≠ .eof)
    {test : Symbol → Bool} (htest : ∀ t : Token, test t.symbol = decide (t.kind = kind)) :
    p.is kind = p.next test := by
  obtain ⟨file, tokens, stop, stack⟩ := p
  cases tokens with
  | nil =>
    have hstop : stop.kind ≠ kind := by
      rw [show stop.kind = .eof from hp.stop]
      exact heof.symm
    simp [is, current, next, symbols, hstop]
  | cons t tokens => exact (htest t).symm

/-- Whether tokens of a kind are all the same mark. -/
def marks : Token.Kind → Bool
  | .eof | .ident | .keyword => false
  | _ => true

theorem is_mark {p : Parser} (hp : p.Sound) {kind : Token.Kind} (hkind : marks kind = true) :
    p.is kind = p.next (· == .mark kind) := by
  obtain ⟨heof, hident, hkeyword⟩ : kind ≠ .eof ∧ kind ≠ .ident ∧ kind ≠ .keyword := by
    cases kind <;> first | decide | cases hkind
  refine is_eq_next hp heof fun t => ?_
  rw [Token.symbol]
  split
  · rename_i h
    simp [h, hident.symm]
  · rename_i h
    simp [h, hkeyword.symm]
  · rw [Bool.eq_iff_iff]
    simp

theorem is_mark_iff {p : Parser} (hp : p.Sound) {kind : Token.Kind} (hkind : marks kind = true) :
    p.is kind = true ↔ p.symbols.head? = some (.mark kind) := by
  rw [is_mark hp hkind, next_beq_iff]

theorem is_ident {p : Parser} (hp : p.Sound) : p.is .ident = p.next isName := by
  refine is_eq_next hp (by decide) fun t => ?_
  rw [Token.symbol]
  split <;> simp_all [isName]

theorem is_keyword {p : Parser} (hp : p.Sound) : p.is .keyword = p.next isKeyword := by
  refine is_eq_next hp (by decide) fun t => ?_
  rw [Token.symbol]
  split <;> simp_all [isKeyword]

theorem isDone_iff {p : Parser} (hp : p.Sound) : p.isDone = true ↔ p.symbols = [] := by
  obtain ⟨file, tokens, stop, stack⟩ := p
  cases tokens with
  | nil => simp [isDone, is, current, symbols, show stop.kind = .eof from hp.stop]
  | cons t tokens =>
    have ht : t.kind ≠ .eof := hp.inner t List.mem_cons_self
    simp [isDone, is, current, symbols, ht]

theorem not_isDone {p : Parser} (hp : p.Sound) {w : Symbol} (h : p.symbols.head? = some w) :
    ¬ p.isDone = true := by
  rw [isDone_iff hp]
  intro hnil
  rw [hnil] at h
  cases h

theorem isFactor_eq {p : Parser} (hp : p.Sound) : p.isFactor = p.next opensFactor := by
  rw [isFactor, is_ident hp, is_mark hp (by decide), next, next, next]
  rcases p.symbols.head? with _ | w
  · rfl
  · rcases w with _ | _ | kind
    · rfl
    · rfl
    · cases kind <;> rfl

theorem head?_eq_name_iff {p : Parser} (hp : p.Sound) {n : String} :
    p.symbols.head? = some (.name n) ↔ p.is .ident = true ∧ p.current.name = n := by
  obtain ⟨file, tokens, stop, stack⟩ := p
  cases tokens with
  | nil => simp [symbols, is, current, show stop.kind = .eof from hp.stop]
  | cons t tokens => cases h : t.kind <;> simp [symbols, is, current, Token.symbol, h]

theorem head?_eq_keyword_iff {p : Parser} (hp : p.Sound) {n : String} :
    p.symbols.head? = some (.keyword n) ↔ p.is .keyword = true ∧ p.current.name = n := by
  obtain ⟨file, tokens, stop, stack⟩ := p
  cases tokens with
  | nil => simp [symbols, is, current, show stop.kind = .eof from hp.stop]
  | cons t tokens => cases h : t.kind <;> simp [symbols, is, current, Token.symbol, h]

/-- A parser that reads something goes past the first symbol of it. -/
theorem Reads.next {p q : Parser} {ws : List Symbol} {stack : List Term}
    (h : p.Reads ws stack q) {test : Symbol → Bool} (hws : ∀ r, (ws ++ r).head?.any test = true) :
    p.next test = true := by
  rw [Parser.next, h.symbols]
  exact hws _

/-! ## Steps and rules -/

/-- A step follows a rule, for parsers that satisfy a condition. -/
structure Obeys {δ : Type} (step : Step) (pre : Parser → Prop) (written : δ → List Symbol)
    (put : List Term → δ → List Term) (stop : List Symbol → Prop) : Prop where
  sound : ∀ {p q : Parser}, p.Sound → pre p → step p = .ok q →
    ∃ d, p.Reads (written d) (put p.stack d) q
  complete : ∀ {p q : Parser} (d : δ), p.Sound → pre p → p.Reads (written d) (put p.stack d) q →
    stop q.symbols → step p = .ok q

namespace Obeys

variable {δ ε : Type} {step step₁ step₂ : Step} {pre pre₁ pre₂ : Parser → Prop}
  {written : δ → List Symbol} {put : List Term → δ → List Term}
  {stop stop₁ stop₂ : List Symbol → Prop}

theorem mono (h : Obeys step pre₁ written put stop₁) (hpre : ∀ p, pre₂ p → pre₁ p)
    (hstop : ∀ r, stop₂ r → stop₁ r) : Obeys step pre₂ written put stop₂ where
  sound hp hpre₂ := h.sound hp (hpre _ hpre₂)
  complete d hp hpre₂ hreads hq := h.complete d hp (hpre _ hpre₂) hreads (hstop _ hq)

/-- Derivations may be rearranged, as long as none is lost. -/
theorem map (h : Obeys step pre written put stop) (written' : ε → List Symbol)
    (put' : List Term → ε → List Term) (f : δ → ε) (g : ε → δ) (hfg : ∀ d, f (g d) = d)
    (hwritten : ∀ d, written' (f d) = written d) (hput : ∀ s d, put' s (f d) = put s d) :
    Obeys step pre written' put' stop where
  sound hp hpre hstep := by
    obtain ⟨d, hd⟩ := h.sound hp hpre hstep
    refine ⟨f d, ?_⟩
    rw [hwritten, hput]
    exact hd
  complete d hp hpre hreads hq := by
    refine h.complete (g d) hp hpre ?_ hq
    rw [← hwritten, ← hput, hfg]
    exact hreads

/-- One step after another. What the second reads has to end what the first does. -/
theorem bind {written₁ : δ → List Symbol} {put₁ : List Term → δ → List Term}
    {written₂ : ε → List Symbol} {put₂ : List Term → ε → List Term}
    (h₁ : Obeys step₁ pre₁ written₁ put₁ stop₁) (h₂ : Obeys step₂ pre₂ written₂ put₂ stop₂)
    (hpre : ∀ p d q, pre₁ p → p.Reads (written₁ d) (put₁ p.stack d) q → pre₂ q)
    (hstop : ∀ e r, stop₂ r → stop₁ (written₂ e ++ r)) :
    Obeys (fun p => step₁ p >>= step₂) pre₁ (fun d : δ × ε => written₁ d.1 ++ written₂ d.2)
      (fun s d => put₂ (put₁ s d.1) d.2) stop₂ where
  sound := by
    intro p q hp hpre₁ hstep
    obtain ⟨m, hm, hq⟩ := bind_eq_ok_iff.1 hstep
    obtain ⟨d, hd⟩ := h₁.sound hp hpre₁ hm
    obtain ⟨e, he⟩ := h₂.sound (hd.sound hp) (hpre p d m hpre₁ hd) hq
    rw [hd.stack_eq] at he
    exact ⟨(d, e), (Reads.append_iff _).2 ⟨m, hd, he⟩⟩
  complete := by
    rintro p q ⟨d, e⟩ hp hpre₁ hreads hq
    obtain ⟨m, hd, he⟩ := (Reads.append_iff (put₁ p.stack d)).1 hreads
    have hm : stop₁ m.symbols := by
      rw [he.symbols]
      exact hstop e _ hq
    refine bind_eq_ok_iff.2 ⟨m, h₁.complete d hp hpre₁ hd hm, ?_⟩
    refine h₂.complete e (hd.sound hp) (hpre p d m hpre₁ hd) ?_ hq
    rw [hd.stack_eq]
    exact he

/-- A step with an action on the stack at its end. -/
theorem finish (h : Obeys step pre written put stop) (action : Step)
    (put' : List Term → δ → List Term)
    (haction : ∀ p q d, pre p → q.stack = put p.stack d →
      action q = .ok { q with stack := put' p.stack d }) :
    Obeys (fun p => step p >>= action) pre written put' stop where
  sound := by
    intro p q hp hpre hstep
    obtain ⟨m, hm, hq⟩ := bind_eq_ok_iff.1 hstep
    obtain ⟨d, hd⟩ := h.sound hp hpre hm
    rw [haction p m d hpre hd.stack_eq] at hq
    cases hq
    refine ⟨d, hd.symbols, ?_⟩
    rw [hd.left]
  complete := by
    intro p q d hp hpre hreads hq
    -- The action is taken on the parser that has read the same symbols.
    have hm : p.Reads (written d) (put p.stack d) { q with stack := put p.stack d } := by
      refine ⟨hreads.symbols, ?_⟩
      rw [hreads.left]
    refine bind_eq_ok_iff.2 ⟨_, h.complete d hp hpre hm hq, ?_⟩
    rw [haction p _ d hpre rfl, hreads.left]

/-- A step that is repeated while the next symbol may begin another round. `inv` holds before each
    round. -/
theorem repeatAtMost {test : Parser → Bool} {body : Step} {opens : Symbol → Bool}
    {inv : Parser → Prop} (hbody : Obeys body (fun p => inv p ∧ test p = true) written put stop)
    (htest : ∀ p : Parser, p.Sound → test p = p.next opens)
    (hopens : ∀ d r, (written d ++ r).head?.any opens = true)
    (hnext : ∀ d r, stop (written d ++ r))
    (hinv : ∀ p d q, inv p → p.Reads (written d) (put p.stack d) q → inv q) (n : Nat) :
    Obeys (Parser.repeatAtMost test body n) (fun p => inv p ∧ p.tokens.length ≤ n)
      (List.flatMap written) (List.foldl put) (fun r => stop r ∧ Stops opens r) := by
  have hne : ∀ d, 0 < (written d).length := by
    intro d
    rw [List.length_pos_iff]
    intro hnil
    have := hopens d []
    rw [hnil] at this
    cases this
  induction n with
  | zero =>
    refine ⟨?_, ?_⟩
    · rintro p q hp - ⟨⟩
      exact ⟨[], Reads.nil_iff.2 rfl⟩
    · rintro p q ds hp ⟨-, hlength⟩ hreads -
      -- No token is left, so nothing has been read.
      cases ds with
      | nil => exact congrArg Except.ok (Reads.nil_iff.1 hreads).symm
      | cons d ds =>
        have hread := hreads.length_eq
        have := hne d
        rw [List.flatMap_cons, List.length_append] at hread
        omega
  | succ n ih =>
    refine ⟨?_, ?_⟩
    · rintro p q hp ⟨hp_inv, hlength⟩ hstep
      rw [Parser.repeatAtMost] at hstep
      split at hstep
      · rename_i hp_test
        obtain ⟨m, hm, hq⟩ := bind_eq_ok_iff.1 hstep
        obtain ⟨d, hd⟩ := hbody.sound hp ⟨hp_inv, hp_test⟩ hm
        have hread := hd.length_eq
        have := hne d
        obtain ⟨ds, hds⟩ := ih.sound (hd.sound hp) ⟨hinv p d m hp_inv hd, by omega⟩ hq
        rw [hd.stack_eq] at hds
        exact ⟨d :: ds, (Reads.append_iff _).2 ⟨m, hd, hds⟩⟩
      · cases hstep
        exact ⟨[], Reads.nil_iff.2 rfl⟩
    · rintro p q ds hp ⟨hp_inv, hlength⟩ hreads ⟨hstop, hopen⟩
      rw [Parser.repeatAtMost, htest p hp]
      cases ds with
      | nil =>
        have hq := Reads.nil_iff.1 hreads
        have hp_next : p.next opens = false := by
          rw [hq] at hopen
          exact hopen
        rw [if_neg (by rw [hp_next]; decide), hq]
        rfl
      | cons d ds =>
        obtain ⟨m, hd, hds⟩ := (Reads.append_iff (put p.stack d)).1 hreads
        have hp_next : p.next opens = true := hd.next (hopens d)
        have hm_stop : stop m.symbols := by
          rw [hds.symbols]
          exact stop_flatMap hnext ds hstop
        have hread := hd.length_eq
        have := hne d
        rw [if_pos hp_next]
        refine bind_eq_ok_iff.2 ⟨m, ?_, ?_⟩
        · exact hbody.complete d hp ⟨hp_inv, by rw [htest p hp, hp_next]⟩ hd hm_stop
        · refine ih.complete ds (hd.sound hp) ⟨hinv p d m hp_inv hd, by omega⟩ ?_ ⟨hstop, hopen⟩
          rw [hd.stack_eq]
          exact hds

/-- The number of tokens is always enough rounds. -/
theorem many {test : Parser → Bool} {body : Step} {opens : Symbol → Bool} {inv : Parser → Prop}
    (hbody : Obeys body (fun p => inv p ∧ test p = true) written put stop)
    (htest : ∀ p : Parser, p.Sound → test p = p.next opens)
    (hopens : ∀ d r, (written d ++ r).head?.any opens = true)
    (hnext : ∀ d r, stop (written d ++ r))
    (hinv : ∀ p d q, inv p → p.Reads (written d) (put p.stack d) q → inv q) :
    Obeys (Parser.many test body) inv (List.flatMap written) (List.foldl put)
      (fun r => stop r ∧ Stops opens r) where
  sound {p} _ hp hp_inv :=
    (hbody.repeatAtMost htest hopens hnext hinv p.tokens.length).sound hp ⟨hp_inv, Nat.le_refl _⟩
  complete {p} _ ds hp hp_inv :=
    (hbody.repeatAtMost htest hopens hnext hinv p.tokens.length).complete ds hp
      ⟨hp_inv, Nat.le_refl _⟩

end Obeys

/-! ## Tokens -/

/-- Puts a term on the stack for each derivation. -/
def pushing {δ : Type} (term : δ → Term) (s : List Term) (d : δ) : List Term := term d :: s

theorem foldl_pushing {δ : Type} (term : δ → Term) (s : List Term) (ds : List δ) :
    ds.foldl (pushing term) s = (ds.map term).reverse ++ s := by
  induction ds generalizing s with
  | nil => rfl
  | cons d ds ih =>
    rw [List.foldl_cons, ih, pushing, List.map_cons, List.reverse_cons, List.append_assoc,
      List.singleton_append]

/-- A condition that is always met. -/
def always {α : Type} (_ : α) : Prop := True

theorem not_unexpected {p q : Parser} : p.unexpected ≠ .ok q := by
  intro h
  cases h

/-- Going past a symbol reads it. -/
theorem reads_singleton_iff {p q : Parser} {w : Symbol} {stack : List Term} :
    p.Reads [w] stack q ↔ p.symbols.head? = some w ∧ q = { p.advance with stack := stack } := by
  rw [Reads.cons_iff, Reads.nil_iff]

theorem identifier_obeys :
    Obeys identifier always (fun n => [.name n]) (pushing .ident) always where
  sound := by
    rintro p q hp - hstep
    rw [identifier] at hstep
    split at hstep
    · rename_i hident
      cases hstep
      exact ⟨p.current.name, reads_singleton_iff.2
        ⟨(head?_eq_name_iff hp).2 ⟨hident, rfl⟩, rfl⟩⟩
    · exact absurd hstep not_unexpected
  complete := by
    rintro p q n hp - hreads -
    obtain ⟨hhead, rfl⟩ := reads_singleton_iff.1 hreads
    obtain ⟨hident, rfl⟩ := (head?_eq_name_iff hp).1 hhead
    rw [identifier, if_pos hident]
    rfl

theorem expect_obeys (kind : Token.Kind) (hkind : marks kind = true) :
    Obeys (expect kind) always (fun _ : Unit => [.mark kind]) (fun s _ => s) always where
  sound := by
    rintro p q hp - hstep
    rw [expect, is_mark hp hkind] at hstep
    split at hstep
    · rename_i hnext
      cases hstep
      exact ⟨(), reads_singleton_iff.2 ⟨next_beq_iff.1 hnext, rfl⟩⟩
    · exact absurd hstep not_unexpected
  complete := by
    rintro p q ⟨⟩ hp - hreads -
    obtain ⟨hhead, rfl⟩ := reads_singleton_iff.1 hreads
    rw [expect, is_mark hp hkind, if_pos (next_beq_iff.2 hhead)]
    rfl

/-- A token of a known kind is gone past, and the rest is read from there. -/
theorem Obeys.advance {δ : Type} {step : Step} {pre : Parser → Prop} {written : δ → List Symbol}
    {put : List Term → δ → List Term} {stop : List Symbol → Prop}
    (h : Obeys step pre written put stop) (w : Symbol) (pre' : Parser → Prop)
    (hhead : ∀ p : Parser, p.Sound → pre' p → p.symbols.head? = some w)
    (hpre : ∀ p : Parser, pre' p → pre p.advance) :
    Obeys (fun p => step p.advance) pre' (fun d => w :: written d) put stop where
  sound := by
    intro p q hp hp' hstep
    obtain ⟨d, hd⟩ := h.sound hp.advance (hpre p hp') hstep
    exact ⟨d, Reads.cons_iff.2 ⟨hhead p hp hp', hd⟩⟩
  complete := by
    intro p q d hp hp' hreads hq
    exact h.complete d hp.advance (hpre p hp') (Reads.cons_iff.1 hreads).2 hq

/-- A step may begin with a mark put on the stack. -/
theorem Obeys.push {δ : Type} {step : Step} {pre : Parser → Prop} {written : δ → List Symbol}
    {put : List Term → δ → List Term} {stop : List Symbol → Prop}
    (h : Obeys step pre written put stop) (t : Term) (pre' : Parser → Prop)
    (hpre : ∀ p : Parser, pre' p → pre (p.push t)) :
    Obeys (fun p => step (p.push t)) pre' written (fun s => put (t :: s)) stop where
  sound := by
    intro p q hp hp' hstep
    obtain ⟨d, hd⟩ := h.sound (p := p.push t) ⟨hp.stop, hp.inner⟩ (hpre p hp') hstep
    exact ⟨d, Reads.push_iff.1 hd⟩
  complete := by
    intro p q d hp hp' hreads hq
    exact h.complete d ⟨hp.stop, hp.inner⟩ (hpre p hp') (Reads.push_iff.2 hreads) hq

/-- A condition on the number of tokens that any number meets is none. -/
theorem Obeys.unbounded {δ : Type} {step : Step} {pre : Parser → Prop}
    {written : δ → List Symbol} {put : List Term → δ → List Term} {stop : List Symbol → Prop}
    (h : ∀ n, Obeys step (fun p => p.tokens.length ≤ n + 1 ∧ pre p) written put stop) :
    Obeys step pre written put stop where
  sound {p} _ hp hpre := (h p.tokens.length).sound hp ⟨Nat.le_succ _, hpre⟩
  complete {p} _ d hp hpre := (h p.tokens.length).complete d hp ⟨Nat.le_succ _, hpre⟩

theorem advance_length_le {p : Parser} {n : Nat} (h : p.tokens.length ≤ n) :
    p.advance.tokens.length ≤ n := by
  show p.tokens.tail.length ≤ n
  rw [List.length_tail]
  omega

end Clausal.Parser
