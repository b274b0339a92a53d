/-
  Clausal.Proofs.Abandoned

  What the parser leaves behind when a step fails. Nothing is taken off the stack then, so the parts
  of the statement that was given up stay where they are, marks included. A part (`Parser.Part`) is
  some symbols with the terms that they left on the stack; no term of it is a declaration, and it has
  the mark of a builtin signature on top exactly if the keyword is the last symbol, those that leave
  no trace apart.

    * `Parser.Owns`: a parser has come from another by reading a part, and so many terms on top of
      its stack are finished;
    * `Parser.Yields`: how many terms a step needs and leaves finished, and that a part is all it
      leaves if it fails; put together as the steps are, like `Parser.Obeys`;
    * `Parser.statement_lost`: a statement that fails leaves a part.
-/
import Clausal.Proofs.Statements

namespace Clausal

/-! ## Keywords left open -/

/-- Whether a symbol leaves no trace. A semicolon and an opening parenthesis are gone past before
    anything is put on the stack; any other symbol puts a term there or comes behind a finished
    one. -/
def Symbol.isIdle : Symbol → Bool
  | .mark .semicolon => true
  | .mark .lparen => true
  | _ => false

/-- Whether the last symbol, those apart that leave no trace, is the keyword of a builtin
    signature. -/
def leftOpen (ws : List Symbol) : Bool :=
  ws.reverse.find? (fun w => !w.isIdle) = some (.keyword "builtin")

theorem leftOpen_append (ws ws' : List Symbol) :
    leftOpen (ws ++ ws') = if ws'.all Symbol.isIdle then leftOpen ws else leftOpen ws' := by
  rw [leftOpen, leftOpen, leftOpen, List.reverse_append, List.find?_append]
  cases hfind : ws'.reverse.find? (fun w => !w.isIdle) with
  | none =>
    have hidle : ws'.all Symbol.isIdle = true := by
      simpa using hfind
    rw [hidle, if_pos rfl, Option.none_or]
  | some w =>
    have hbusy : ¬ ws'.all Symbol.isIdle = true := by
      intro hidle
      have hw := List.find?_some hfind
      have hmem := List.mem_reverse.1 (List.mem_of_find?_eq_some hfind)
      rw [List.all_eq_true.1 hidle w hmem] at hw
      cases hw
    rw [if_neg hbusy, Option.some_or]

theorem leftOpen_singleton {w : Symbol} (h : w.isIdle = false) :
    leftOpen [w] = decide (w = .keyword "builtin") := by
  rw [leftOpen, List.reverse_singleton, List.find?_singleton, h]
  simp

namespace Parser

open Grammar

/-! ## Parts -/

/-- Whether a term is a part of a declaration: an expression, or a mark. -/
def isPartial : Term → Bool
  | .ident _ => true
  | .group _ => true
  | .app _ => true
  | .arrow _ => true
  | .marker => true
  | .builtinMarker => true
  | _ => false

/-- Symbols that were read and what they left on the stack, its top first. -/
structure Part where
  symbols : List Symbol
  terms : List Term
  partial_terms : ∀ t ∈ terms, isPartial t = true
  -- What is below the part is on top of the stack exactly as long as the part left no trace.
  empty_iff : terms = [] ↔ symbols.all Symbol.isIdle = true
  open_iff : terms.head? = some .builtinMarker ↔ leftOpen symbols = true

/-- A finished term on top is no mark. -/
theorem head?_append_finished {own rest : List Term} (hne : own ≠ [])
    (hown : ∀ t ∈ own, Finished t) : (own ++ rest).head? = some .builtinMarker ↔ False := by
  obtain ⟨t, own, rfl⟩ := List.exists_cons_of_ne_nil hne
  rw [iff_false, List.cons_append, List.head?_cons, Option.some.injEq]
  rintro rfl
  cases hown _ List.mem_cons_self

namespace Part

/-- Nothing was read. -/
def nothing : Part := ⟨[], [], by simp, by simp, by simp [leftOpen]⟩

/-- A symbol that leaves no trace. -/
def idle (w : Symbol) (h : w.isIdle = true) : Part :=
  ⟨[w], [], by simp, by simp [h], by simp [leftOpen, h]⟩

/-- A symbol that puts a term on the stack. -/
def single (w : Symbol) (t : Term) (hw : w.isIdle = false) (ht : isPartial t = true)
    (hopen : t = .builtinMarker ↔ w = .keyword "builtin") : Part :=
  ⟨[w], [t], by simpa using ht, by simp [hw], by simpa [leftOpen_singleton hw] using hopen⟩

/-- The mark of a builtin signature is on top of a stack as long as nothing is put on it. -/
theorem head?_append_iff (y : Part) {stack : List Term} {ws : List Symbol}
    (h : stack.head? = some .builtinMarker ↔ leftOpen ws = true) :
    (y.terms ++ stack).head? = some .builtinMarker ↔ leftOpen (ws ++ y.symbols) = true := by
  rw [leftOpen_append, List.head?_append]
  by_cases hidle : y.symbols.all Symbol.isIdle = true
  · rw [if_pos hidle, y.empty_iff.2 hidle]
    exact h
  · obtain ⟨t, rest, hterms⟩ := List.exists_cons_of_ne_nil (mt y.empty_iff.1 hidle)
    rw [if_neg hidle, ← y.open_iff, hterms]
    rfl

/-- One part behind another. -/
def append (x y : Part) : Part where
  symbols := x.symbols ++ y.symbols
  terms := y.terms ++ x.terms
  partial_terms := List.forall_mem_append.2 ⟨y.partial_terms, x.partial_terms⟩
  empty_iff := by
    rw [List.append_eq_nil_iff, List.all_append, Bool.and_eq_true, x.empty_iff, y.empty_iff,
      and_comm]
  open_iff := y.head?_append_iff x.open_iff

/-- One more symbol that puts nothing on the stack, behind a finished term. -/
def pass (x : Part) {own rest : List Term} (hterms : x.terms = own ++ rest) (hne : own ≠ [])
    (hown : ∀ t ∈ own, Finished t) (w : Symbol) (hw : w.isIdle = false)
    (hkeyword : w ≠ .keyword "builtin") : Part where
  symbols := x.symbols ++ [w]
  terms := x.terms
  partial_terms := x.partial_terms
  empty_iff := by
    rw [hterms]
    simp [hne, hw]
  open_iff := by
    rw [hterms, head?_append_finished hne hown, leftOpen_append]
    simp [hw, leftOpen_singleton hw, hkeyword]

/-- The same symbols with other finished terms on top. -/
def exchange (x : Part) {own rest own' : List Term} (hterms : x.terms = own ++ rest)
    (hne : own ≠ []) (hown : ∀ t ∈ own, Finished t) (hne' : own' ≠ [])
    (hown' : ∀ t ∈ own', Finished t ∧ isPartial t = true) : Part where
  symbols := x.symbols
  terms := own' ++ rest
  partial_terms := by
    refine List.forall_mem_append.2 ⟨fun t ht => (hown' t ht).2, fun t ht => ?_⟩
    exact x.partial_terms t (hterms ▸ List.mem_append_right _ ht)
  empty_iff := by
    rw [← x.empty_iff, hterms]
    simp [hne, hne']
  open_iff := by
    rw [← x.open_iff, hterms, head?_append_finished hne hown,
      head?_append_finished hne' fun t ht => (hown' t ht).1]

end Part

/-! ## Parsers on the way -/

/-- A parser has come from another by reading a part, and the topmost `k` terms of the part are
    finished. -/
structure Owns (start : Parser) (k : Nat) (p : Parser) : Prop where
  sound : p.Sound
  part : ∃ (x : Part) (own rest : List Term), start.Reads x.symbols (x.terms ++ start.stack) p ∧
    x.terms = own ++ rest ∧ own.length = k ∧ ∀ t ∈ own, Finished t

namespace Owns

variable {start p q : Parser} {j k : Nat}

theorem refl (hp : p.Sound) : p.Owns 0 p :=
  ⟨hp, .nothing, [], [], Reads.nil_iff.2 rfl, rfl, rfl, by simp⟩

theorem weaken (h : start.Owns k p) (hjk : j ≤ k) : start.Owns j p := by
  obtain ⟨x, own, rest, hreads, hterms, hlen, hown⟩ := h.part
  refine ⟨h.sound, x, own.take j, own.drop j ++ rest, hreads, ?_, ?_, ?_⟩
  · rw [hterms, ← List.append_assoc, List.take_append_drop]
  · rw [List.length_take, hlen, Nat.min_eq_left hjk]
  · exact fun t ht => hown t (List.mem_of_mem_take ht)

/-- A part that is read next, with finished terms. -/
theorem append (h : start.Owns k p) (y : Part) (hy : p.Reads y.symbols (y.terms ++ p.stack) q)
    (hfinished : ∀ t ∈ y.terms, Finished t) : start.Owns (y.terms.length + k) q := by
  obtain ⟨x, own, rest, hreads, hterms, hlen, hown⟩ := h.part
  rw [hreads.stack_eq, ← List.append_assoc] at hy
  refine ⟨hy.sound h.sound, x.append y, y.terms ++ own, rest,
    (Reads.append_iff _).2 ⟨p, hreads, hy⟩, ?_, by rw [List.length_append, hlen], ?_⟩
  · rw [List.append_assoc, ← hterms]
    rfl
  · exact List.forall_mem_append.2 ⟨hfinished, hown⟩

/-- A part that is read next, whatever its terms. -/
theorem mark (h : start.Owns k p) (y : Part) (hy : p.Reads y.symbols (y.terms ++ p.stack) q) :
    start.Owns 0 q := by
  obtain ⟨x, own, rest, hreads, hterms, hlen, hown⟩ := h.part
  rw [hreads.stack_eq, ← List.append_assoc] at hy
  exact ⟨hy.sound h.sound, x.append y, [], y.terms ++ x.terms,
    (Reads.append_iff _).2 ⟨p, hreads, hy⟩, rfl, rfl, by simp⟩

/-- A symbol that leaves no trace. -/
theorem idle (h : start.Owns k p) {w : Symbol} (hw : w.isIdle = true)
    (hhead : p.symbols.head? = some w) : start.Owns k p.advance := by
  have hnext := h.append (Part.idle w hw) (reads_singleton_iff.2 ⟨hhead, rfl⟩) (by simp [Part.idle])
  rwa [Part.idle, List.length_nil, Nat.zero_add] at hnext

/-- A symbol for which a finished term is put on the stack. -/
theorem push (h : start.Owns k p) {w : Symbol} {t : Term} (hw : w.isIdle = false)
    (hkeyword : w ≠ .keyword "builtin") (ht : isPartial t = true) (hfinished : Finished t)
    (hhead : p.symbols.head? = some w) : start.Owns (k + 1) (p.push t).advance := by
  have hmark : t ≠ .builtinMarker := by
    rintro rfl
    cases hfinished
  have hnext := h.append (Part.single w t hw ht (by simp [hmark, hkeyword]))
    (reads_singleton_iff.2 ⟨hhead, rfl⟩) (by simpa [Part.single] using hfinished)
  rwa [Part.single, List.length_singleton, Nat.add_comm] at hnext

/-- A symbol that puts nothing on the stack, behind a finished term. -/
theorem pass (h : start.Owns (k + 1) p) {w : Symbol} (hw : w.isIdle = false)
    (hkeyword : w ≠ .keyword "builtin") (hhead : p.symbols.head? = some w) :
    start.Owns (k + 1) p.advance := by
  obtain ⟨x, own, rest, hreads, hterms, hlen, hown⟩ := h.part
  have hne : own ≠ [] := List.ne_nil_of_length_eq_add_one hlen
  refine ⟨h.sound.advance, x.pass hterms hne hown w hw hkeyword, own, rest, ?_, hterms, hlen, hown⟩
  refine (Reads.append_iff _).2 ⟨p, hreads, reads_singleton_iff.2 ⟨hhead, ?_⟩⟩
  show p.advance = { p.advance with stack := x.terms ++ start.stack }
  rw [← hreads.stack_eq]
  rfl

/-- Finished terms on top of the stack may be exchanged for one. -/
theorem exchange {i : Nat} (h : start.Owns (k + (i + 1)) p) :
    ∃ top below, p.stack = top ++ below ∧ top.length = i + 1 ∧
      ∀ t, Finished t → isPartial t = true →
        start.Owns (k + 1) { p with stack := t :: below } := by
  obtain ⟨x, own, rest, hreads, hterms, hlen, hown⟩ := h.part
  refine ⟨own.take (i + 1), own.drop (i + 1) ++ rest ++ start.stack, ?_, ?_, ?_⟩
  · rw [hreads.stack_eq, hterms, ← List.append_assoc, ← List.append_assoc, List.take_append_drop]
  · rw [List.length_take, hlen]
    omega
  · -- The finished terms below those that are exchanged stay finished.
    intro t ht hpartial
    have hne : own ≠ [] := List.ne_nil_of_length_eq_add_one hlen
    have hown' : ∀ s ∈ t :: own.drop (i + 1), Finished s ∧ isPartial s = true := by
      refine List.forall_mem_cons.2 ⟨⟨ht, hpartial⟩, fun s hs => ?_⟩
      have hmem := List.mem_of_mem_drop hs
      exact ⟨hown s hmem, x.partial_terms s (hterms ▸ List.mem_append_left _ hmem)⟩
    refine ⟨⟨h.sound.stop, h.sound.inner⟩,
      x.exchange hterms hne hown (List.cons_ne_nil _ _) hown', t :: own.drop (i + 1), rest,
      ⟨hreads.symbols, ?_⟩, rfl, ?_, fun s hs => (hown' s hs).1⟩
    · rw [hreads.left]
      rfl
    · rw [List.length_cons, List.length_drop, hlen]
      omega

end Owns

/-! ## Steps -/

theorem bind_eq_error_iff {x : Except Failure Parser} {step : Step} {f : Failure} :
    (x >>= step) = .error f ↔ x = .error f ∨ ∃ m, x = .ok m ∧ step m = .error f := by
  cases x with
  | error e => simp [bind, Except.bind]
  | ok m => simp [bind, Except.bind]

/-- From `k` finished terms a step comes to `j` of them, or fails and leaves a part. -/
structure Yields (pre : Parser → Prop) (k : Nat) (step : Step) (j : Nat) : Prop where
  done : ∀ {start p q : Parser}, start.Owns k p → pre p → step p = .ok q → start.Owns j q
  lost : ∀ {start p : Parser} {f : Failure}, start.Owns k p → pre p → step p = .error f →
    start.Owns 0 f.left

namespace Yields

variable {pre : Parser → Prop} {i j k : Nat} {step step' : Step}

/-- A step that is good for every parser is good under a condition. -/
theorem under (h : Yields always k step j) : Yields pre k step j where
  done hp _ hstep := h.done hp trivial hstep
  lost hp _ hstep := h.lost hp trivial hstep

theorem weaken (h : Yields pre k step j) (hi : i ≤ j) : Yields pre k step i where
  done hp hpre hstep := (h.done hp hpre hstep).weaken hi
  lost hp hpre hstep := h.lost hp hpre hstep

theorem bind (h : Yields pre k step j) (h' : Yields always j step' i) :
    Yields pre k (fun p => step p >>= step') i where
  done hp hpre hstep := by
    obtain ⟨m, hm, hq⟩ := bind_eq_ok_iff.1 hstep
    exact h'.done (h.done hp hpre hm) trivial hq
  lost hp hpre hstep := by
    rcases bind_eq_error_iff.1 hstep with hf | ⟨m, hm, hf⟩
    · exact h.lost hp hpre hf
    · exact h'.lost (h.done hp hpre hm) trivial hf

/-- A step that never fails. -/
theorem of_ok (h : ∀ {start p : Parser}, start.Owns k p → pre p →
    ∃ q, step p = .ok q ∧ start.Owns j q) : Yields pre k step j where
  done hp hpre hstep := by
    obtain ⟨q, hq, howns⟩ := h hp hpre
    rw [hq] at hstep
    cases hstep
    exact howns
  lost hp hpre hstep := by
    obtain ⟨q, hq, -⟩ := h hp hpre
    rw [hq] at hstep
    cases hstep

theorem ok : Yields pre k (fun p => .ok p) k := of_ok fun hp _ => ⟨_, rfl, hp⟩

/-- A step that fails where it stands. -/
theorem of_error (h : ∀ p, ∃ error, step p = .error ⟨error, p⟩) : Yields pre k step j where
  done {_ p _} _ _ hstep := by
    obtain ⟨error, herror⟩ := h p
    rw [herror] at hstep
    cases hstep
  lost {_ p _} hp _ hstep := by
    obtain ⟨error, herror⟩ := h p
    rw [herror] at hstep
    cases hstep
    exact hp.weaken (Nat.zero_le k)

theorem fail (problem : Problem) : Yields pre k (Parser.fail problem) j :=
  of_error fun _ => ⟨_, rfl⟩

theorem unexpected : Yields pre k Parser.unexpected j := of_error fun _ => ⟨_, rfl⟩

/-- A step that goes one way or another. -/
theorem ite (test : Parser → Bool) (h : Yields (fun p => test p = true) k step j)
    (h' : Yields pre k step' j) : Yields pre k (fun p => if test p then step p else step' p) j where
  done hp hpre hstep := by
    split at hstep
    · rename_i htest
      exact h.done hp htest hstep
    · exact h'.done hp hpre hstep
  lost hp hpre hstep := by
    split at hstep
    · rename_i htest
      exact h.lost hp htest hstep
    · exact h'.lost hp hpre hstep

/-- A step behind something that never fails. -/
theorem after (h : Yields always j step i) (before : Parser → Parser)
    (hbefore : ∀ {start p : Parser}, start.Owns k p → pre p → start.Owns j (before p)) :
    Yields pre k (fun p => step (before p)) i where
  done hp hpre hstep := h.done (hbefore hp hpre) trivial hstep
  lost hp hpre hstep := h.lost (hbefore hp hpre) trivial hstep

theorem repeatAtMost {test : Parser → Bool} {body : Step}
    (h : Yields (fun p => test p = true) k body k) (n : Nat) :
    Yields always k (Parser.repeatAtMost test body n) k := by
  induction n with
  | zero => exact .ok
  | succ n ih => exact .ite test (h.bind ih) .ok

theorem many {test : Parser → Bool} {body : Step}
    (h : Yields (fun p => test p = true) k body k) : Yields always k (Parser.many test body) k where
  done {_ p _} hp hpre hstep := (h.repeatAtMost p.tokens.length).done hp hpre hstep
  lost {_ p _} hp hpre hstep := (h.repeatAtMost p.tokens.length).lost hp hpre hstep

end Yields

/-! ## Tokens and actions -/

variable {k : Nat}

/-- A mark behind a finished term is gone past. -/
theorem Owns.pass_mark {kind : Token.Kind} (hkind : marks kind = true)
    (hidle : Symbol.isIdle (.mark kind) = false) {start p : Parser} (h : start.Owns (k + 1) p)
    (his : p.is kind = true) : start.Owns (k + 1) p.advance :=
  h.pass hidle (by simp) ((is_mark_iff h.sound hkind).1 his)

theorem Owns.open_paren {start p : Parser} (h : start.Owns k p) (his : p.is .lparen = true) :
    start.Owns k p.advance :=
  h.idle rfl ((is_mark_iff h.sound (by decide)).1 his)

theorem identifier_yields : Yields always k identifier (k + 1) := by
  refine .ite (is .ident) (.of_ok fun hp hident => ⟨_, rfl, ?_⟩) .unexpected
  exact hp.push rfl (by simp) rfl rfl ((head?_eq_name_iff hp.sound).2 ⟨hident, rfl⟩)

theorem expect_yields (kind : Token.Kind) (hkind : marks kind = true)
    (hidle : Symbol.isIdle (.mark kind) = false) :
    Yields always (k + 1) (expect kind) (k + 1) :=
  .ite (is kind) (.of_ok fun hp his => ⟨_, rfl, hp.pass_mark hkind hidle his⟩) .unexpected

theorem extend_finished (kind : Term.Sequence) (first last : Term) :
    Finished (extend kind first last) := by
  unfold extend
  split
  · split <;> rfl
  · rfl

theorem extend_partial {kind : Term.Sequence} (hkind : isPartial (.seq kind []) = true)
    (first last : Term) : isPartial (extend kind first last) = true := by
  unfold extend
  cases kind with
  | entity => cases hkind
  | _ =>
    split
    · split <;> rfl
    · rfl

/-- An action that makes the two topmost terms one. -/
theorem joining_yields {kind : Term.Sequence} (hkind : isPartial (.seq kind []) = true)
    {action : Step} (haction : ∀ {p : Parser} {last first : Term} {rest : List Term},
      p.stack = last :: first :: rest →
        action p = .ok { p with stack := extend kind first last :: rest }) :
    Yields always (k + 2) action (k + 1) := by
  refine .of_ok fun hp _ => ?_
  obtain ⟨top, below, hstack, hlen, hexchange⟩ := hp.exchange
  obtain ⟨last, first, rfl⟩ := List.length_eq_two.1 hlen
  exact ⟨_, haction hstack, hexchange _ (extend_finished _ _ _) (extend_partial hkind _ _)⟩

theorem compose_yields : Yields always (k + 2) compose (k + 1) := joining_yields rfl compose_eq

theorem chain_yields : Yields always (k + 2) chain (k + 1) := joining_yields rfl chain_eq

theorem enclose_yields : Yields always (k + 1) enclose (k + 1) := by
  refine .of_ok fun {_ p} hp _ => ?_
  obtain ⟨top, below, hstack, hlen, hexchange⟩ := hp.exchange
  obtain ⟨t, rfl⟩ := List.length_eq_one_iff.1 hlen
  refine ⟨_, ?_, hexchange (.group t) rfl rfl⟩
  rw [enclose, hstack]
  rfl

theorem finishConstructor_yields : Yields always (k + 1) finishConstructor (k + 1) := by
  refine .of_ok fun {_ p} hp _ => ?_
  obtain ⟨top, below, hstack, hlen, hexchange⟩ := hp.exchange
  obtain ⟨t, rfl⟩ := List.length_eq_one_iff.1 hlen
  have hfinish : ∃ elems, p.finishConstructor = .ok { p with stack := .app elems :: below } := by
    rw [finishConstructor, hstack]
    cases t with
    | seq kind elems => cases kind <;> exact ⟨_, rfl⟩
    | _ => exact ⟨_, rfl⟩
  obtain ⟨elems, hfinish⟩ := hfinish
  exact ⟨_, hfinish, hexchange (.app elems) rfl rfl⟩

/-! ## Expressions -/

section

variable {inner : Step} (hinner : ∀ k, Yields always k inner (k + 1))

include hinner

theorem factorWith_yields : Yields always k (factorWith inner) (k + 1) := by
  -- The expression inside the parentheses is finished, so the closing one comes behind a term.
  have hread := ((hinner k).bind (expect_yields .rparen rfl rfl)).bind enclose_yields
  simp only [bind_assoc] at hread
  exact .ite (is .ident) identifier_yields.under
    (.ite (is .lparen) (hread.after advance Owns.open_paren) .unexpected)

theorem factorsWith_yields : Yields always (k + 1) (factorsWith inner) (k + 1) :=
  ((factorWith_yields hinner).bind compose_yields).under.many

theorem termWith_yields : Yields always k (termWith inner) (k + 1) :=
  (factorWith_yields hinner).bind (factorsWith_yields hinner)

theorem expressionWith_yields : Yields always k (expressionWith inner) (k + 1) := by
  have hnext : Yields (fun p => p.is .arrow = true) (k + 1)
      (fun p => termWith inner p.advance >>= chain) (k + 1) :=
    ((termWith_yields hinner).bind chain_yields).after advance (Owns.pass_mark rfl rfl)
  exact (termWith_yields hinner).bind hnext.many

end

theorem expressionWithin_yields (n : Nat) :
    ∀ k, Yields always k (expressionWithin n) (k + 1) := by
  induction n with
  | zero => exact fun k => .unexpected
  | succ n ih => exact fun k => expressionWith_yields ih

theorem expression_yields : Yields always k expression (k + 1) where
  done {_ p _} hp hpre hstep := (expressionWithin_yields p.tokens.length k).done hp hpre hstep
  lost {_ p _} hp hpre hstep := (expressionWithin_yields p.tokens.length k).lost hp hpre hstep

/-! ## Statements -/

theorem constructor_yields : Yields always k constructor (k + 1) := by
  have hargs : Yields always (k + 1) (factorsWith expression) (k + 1) :=
    factorsWith_yields fun _ => expression_yields
  have hread := (identifier_yields.bind hargs).bind finishConstructor_yields
  simp only [bind_assoc] at hread
  exact hread

theorem constructors_yields :
    Yields (fun p => p.is .assign = true) (k + 1) constructors (k + 1) := by
  have hone : Yields always (k + 1) constructor (k + 1) := constructor_yields.weaken (Nat.le_succ _)
  have hmore : Yields (fun p => p.is .pipe = true) (k + 1) (fun p => constructor p.advance) (k + 1) :=
    hone.after advance (Owns.pass_mark rfl rfl)
  exact (hone.bind hmore.many).after advance (Owns.pass_mark rfl rfl)

/-- A mark is put on the stack for the symbol that begins a statement. -/
theorem Owns.begin {w : Symbol} {t : Term} (hw : w.isIdle = false) (ht : isPartial t = true)
    (hopen : t = .builtinMarker ↔ w = .keyword "builtin") {start p : Parser} (h : start.Owns k p)
    (hhead : p.symbols.head? = some w) : start.Owns 0 (p.advance.push t) :=
  h.mark (.single w t hw ht hopen) (reads_singleton_iff.2 ⟨hhead, rfl⟩)

theorem typeParts_yields :
    Yields (fun p => p.symbols.head? = some (.keyword "decltype")) 0 typeParts 1 := by
  have hname : Yields (fun p => p.symbols.head? = some (.keyword "decltype")) 0
      (fun p => (p.advance.push .marker).identifier) 1 :=
    identifier_yields.after (fun p => p.advance.push .marker) (Owns.begin rfl rfl (by decide))
  have hparam : Yields (fun p => p.is .ident = true) 1 identifier 1 :=
    (identifier_yields.weaken (Nat.le_succ 1)).under
  exact (hname.bind hparam.many).bind (.ite (is .assign) constructors_yields .ok)

theorem signatureParts_yields : Yields always k signatureParts (k + 2) :=
  (identifier_yields.bind (expect_yields .colon rfl rfl)).bind expression_yields

theorem wildcard_yields : Yields (fun p => p.is .wildcard = true) k
    (fun p => .ok (p.push (.ident "_")).advance) (k + 1) := by
  refine .of_ok fun hp his => ⟨_, rfl, ?_⟩
  exact hp.push rfl (by simp) rfl rfl ((is_mark_iff hp.sound (by decide)).1 his)

theorem parameter_yields : Yields always k parameter (k + 1) := by
  have hread : Yields always k (fun p => p.expression >>= expect .rparen) (k + 1) :=
    expression_yields.bind (expect_yields .rparen rfl rfl)
  exact .ite (is .wildcard) wildcard_yields (.ite (is .ident) identifier_yields.under
    (.ite (is .lparen) (hread.after advance Owns.open_paren) .unexpected))

theorem clauseBody_yields : Yields always (k + 1) clauseBody (k + 2) := by
  have hparam : Yields (fun p => (!p.endsParameters) = true) (k + 1) parameter (k + 1) :=
    (parameter_yields.weaken (Nat.le_succ _)).under
  exact .ite endsParameters (.fail _)
    ((hparam.many.bind (expect_yields .assign rfl rfl)).bind expression_yields)

theorem clauseParts_yields : Yields (fun p => p.is .rule = true) 0 clauseParts 2 := by
  have hname : Yields (fun p => p.is .rule = true) 0
      (fun p => (p.advance.push .marker).identifier) 1 :=
    identifier_yields.after (fun p => p.advance.push .marker) fun hp his =>
      hp.begin rfl rfl (by decide) ((is_mark_iff hp.sound (by decide)).1 his)
  exact hname.bind clauseBody_yields

/-- Where the action at its end cannot fail, a step fails in its parts. -/
theorem Obeys.lost_before {δ : Type} {parts action : Step} {pre : Parser → Prop}
    {written : δ → List Symbol} {put : List Term → δ → List Term} {stop : List Symbol → Prop}
    (h : Obeys parts pre written put stop)
    (haction : ∀ (q : Parser) (s : List Term) (d : δ), q.stack = put s d → ∃ r, action q = .ok r)
    {p : Parser} (hp : p.Sound) (hpre : pre p) {f : Failure}
    (hstep : (parts p >>= action) = .error f) : parts p = .error f := by
  rcases bind_eq_error_iff.1 hstep with hf | ⟨m, hm, hf⟩
  · exact hf
  · obtain ⟨d, hd⟩ := h.sound hp hpre hm
    obtain ⟨r, hr⟩ := haction m p.stack d hd.stack_eq
    rw [hr] at hf
    cases hf

theorem signature_lost {start p : Parser} {f : Failure} (hp : start.Owns k p)
    (h : p.signature = .error f) : start.Owns 0 f.left := by
  rw [signature_eq] at h
  have hfinish : ∀ (q : Parser) (s : List Term) (d : String × Expression),
      q.stack = d.2.term :: .ident d.1 :: s → ∃ r, q.finishSignature = .ok r := by
    intro q s d hq
    rw [finishSignature, hq]
    split
    · exact ⟨_, rfl⟩
    · exact ⟨_, rfl⟩
    · rename_i hnone
      exact absurd rfl (hnone _ _ _)
  exact signatureParts_yields.lost hp trivial
    (signatureParts_obeys.lost_before hfinish hp.sound trivial h)

/-- A statement that fails leaves a part of it behind. -/
theorem statement_lost {p : Parser} {f : Failure} (hp : p.Sound) (h : p.statement = .error f) :
    p.Owns 0 f.left := by
  have howns := Owns.refl hp
  have hunexpected : ∀ {q : Parser}, p.Owns 0 q → q.unexpected = .error f → p.Owns 0 f.left :=
    fun hq hf => (Yields.unexpected : Yields always 0 _ 0).lost hq trivial hf
  rw [statement] at h
  split at h
  · rename_i hkeyword
    -- What ends a declaration cannot fail, so it is the parts of it that failed.
    split at h
    · rename_i hname
      have hhead := (head?_eq_keyword_iff hp).2 ⟨hkeyword, hname⟩
      rw [typeDeclaration_eq] at h
      exact typeParts_yields.lost howns hhead
        (typeParts_obeys.lost_before (fun _ _ _ hq => ⟨_, finishType_eq hq⟩) hp hhead h)
    · rename_i hname
      have hhead := (head?_eq_keyword_iff hp).2 ⟨hkeyword, hname⟩
      -- The mark of the signature is on top from here on, until the name is read.
      have hbegin := howns.begin (t := .builtinMarker) rfl rfl (by simp) hhead
      rw [builtinSignature] at h
      split at h
      · exact signature_lost hbegin h
      · exact hunexpected hbegin h
    · exact hunexpected howns h
  · split at h
    · rename_i hrule
      rw [clause_eq] at h
      exact clauseParts_yields.lost howns hrule
        (clauseParts_obeys.lost_before (fun _ _ _ hq => ⟨_, finishClause_eq hq⟩) hp hrule h)
    · split at h
      · exact signature_lost howns h
      · exact hunexpected howns h

end Parser

end Clausal
