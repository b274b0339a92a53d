/-
  Clausal.Proofs.Positions

  Positions are kept piece by piece while a text is cut into tokens. `Position.ofOffset` says what
  they should be, in terms of the bytes before a token alone: line feeds are counted for the line,
  and what is read since the last one is counted for the column.

    * `Token.position_eq_ofOffset`: every token of a text has the position of its offset;
    * `Parser.Reports`: a step of the parser passes over whole tokens, and fails at the token that it
      has come to;
    * `Parser.positions_true`: both together, for everything that a parser may be asked for.
-/
import Clausal.Proofs.Scanning
import Clausal.Proofs.Leftovers
import Mathlib.Data.List.DropRight
import Mathlib.Data.List.Induction

namespace Clausal

/-! ## Lines and columns -/

/-- The line and the column of an offset. Lines end with a line feed. Columns count characters, and
    bytes that begin none. -/
def Position.ofOffset (input : List UInt8) (offset : Nat) : Position :=
  let before := input.take offset
  { line := 1 + before.count 0x0A
    column := 1 + (Text.ofBytes (before.rtakeWhile (· != 0x0A))).length }

theorem Piece.not_mem_bytes {p : Piece} {bs : List UInt8} (h : p.Before bs)
    (hp : ¬ p.is '\n' = true) : 0x0A ∉ p.bytes := by
  intro hmem
  rw [(p.eq_of_low h (by decide) hmem).1] at hp
  exact hp (by decide)

namespace Text

/-- A piece ends a line if and only if one of its bytes is a line feed. -/
theorem Decoded.count_toBytes {t : Text} (h : Decoded t) :
    t.toBytes.count 0x0A = t.countP (Piece.is '\n') := by
  induction t with
  | nil => rfl
  | cons p t ih =>
    rw [toBytes_cons, List.count_append, ih h.2, List.countP_cons, Nat.add_comm]
    by_cases hp : p.is '\n' = true
    · rw [if_pos hp, Piece.is_iff.1 hp]
      rfl
    · rw [if_neg hp, List.count_eq_zero.2 (p.not_mem_bytes h.1 hp)]

/-- The last line of a text, read from the bytes or from the pieces. -/
theorem Decoded.rtakeWhile_toBytes {t : Text} (h : Decoded t) :
    t.toBytes.rtakeWhile (· != 0x0A) = toBytes (t.rtakeWhile (fun p => !p.is '\n')) := by
  induction t using List.reverseRecOn with
  | nil => rfl
  | append_singleton t p ih =>
    -- A line feed at the end leaves nothing; any other piece goes on with all its bytes.
    obtain ⟨ht, hp⟩ := h.append
    rw [toBytes_append, toBytes_cons, toBytes_nil, List.append_nil]
    by_cases hline : p.is '\n' = true
    · rw [List.rtakeWhile_concat_neg _ _ _ (by simp [hline]), Piece.is_iff.1 hline]
      exact List.rtakeWhile_concat_neg _ _ _ (by decide)
    · rw [List.rtakeWhile_concat_pos _ _ _ (by simp [hline]), toBytes_append, ← ih ht, toBytes_cons,
        toBytes_nil, List.append_nil, List.rtakeWhile, List.reverse_append,
        List.takeWhile_append_of_pos, List.reverse_append, List.reverse_reverse, ← List.rtakeWhile]
      intro b hb
      have hnot := p.not_mem_bytes hp.1 hline
      rw [List.mem_reverse] at hb
      simpa using fun heq : b = 0x0A => hnot (heq ▸ hb)

end Text

namespace Place

/-- Line feeds are counted, and the pieces since the last one. -/
theorem position_past (t : Text) : (start.past t).position =
    ⟨1 + t.countP (Piece.is '\n'), 1 + (t.rtakeWhile (fun p => !p.is '\n')).length⟩ := by
  induction t using List.reverseRecOn with
  | nil => rfl
  | append_singleton t p ih =>
    have hstep : start.past (t ++ [p]) = (start.past t).next p := past_append start t [p]
    rw [hstep, next, ih]
    by_cases hline : p.is '\n' = true
    · rw [if_pos hline, List.rtakeWhile_concat_neg _ _ _ (by simp [hline])]
      simp [hline, Nat.add_assoc]
    · rw [if_neg hline, List.rtakeWhile_concat_pos _ _ _ (by simp [hline])]
      simp [hline, Nat.add_assoc]

/-- A place of a text has the position of its offset. -/
theorem Before.position_eq {input : List UInt8} {place : Place} {rest : Text}
    (h : place.Before (Text.ofBytes input) rest) :
    place.position = Position.ofOffset input place.offset := by
  obtain ⟨before, hwhole, rfl⟩ := h
  have hdecoded : Text.Decoded before := by
    have hinput := Text.decoded_ofBytes input
    rw [hwhole] at hinput
    exact hinput.append.1
  have htake : input.take (start.past before).offset = before.toBytes := by
    have hbytes := congrArg Text.toBytes hwhole
    rw [Text.toBytes_ofBytes, Text.toBytes_append] at hbytes
    rw [hbytes, offset_past]
    exact List.take_left' (Nat.zero_add _).symm
  have hline : Text.Decoded (before.rtakeWhile (fun p => !p.is '\n')) := by
    have hcut := List.rdropWhile_append_rtakeWhile (p := fun p => !Piece.is '\n' p) (l := before)
    exact (hcut ▸ hdecoded).append.2
  rw [position_past, Position.ofOffset, htake, hdecoded.count_toBytes, hdecoded.rtakeWhile_toBytes,
    hline.ofBytes_toBytes]

end Place

/-- Every token of a text has the position of its offset. -/
theorem Token.position_eq_ofOffset {input : List UInt8} {place : Place} {t : Text}
    (h : place.Before (Text.ofBytes input) t) :
    ∀ token ∈ tokensFrom place t, token.position = Position.ofOffset input token.offset := by
  induction place, t using tokensFrom.induct with
  | case1 place =>
    rw [tokensFrom]
    exact List.forall_mem_nil _
  | case2 place p rest hblank ih =>
    rw [tokensFrom_blank hblank]
    exact ih h.next
  | case3 place p rest hblank lexeme ih =>
    rw [tokensFrom_cons hblank, List.forall_mem_cons]
    exact ⟨h.position_eq, ih (h.pass lexeme.extra)⟩

/-! ## Errors of the parser -/

namespace Parser

/-- `q` is a parser of the same text that has come as far as `p`, or further. -/
structure Behind (p q : Parser) : Prop where
  tokens : q.tokens <:+ p.tokens
  stop : q.stop = p.stop
  file : q.file = p.file

variable {p q r : Parser}

namespace Behind

theorem refl (p : Parser) : p.Behind p := ⟨List.suffix_refl _, rfl, rfl⟩

theorem trans (h : p.Behind q) (h' : q.Behind r) : p.Behind r :=
  ⟨h'.tokens.trans h.tokens, h'.stop.trans h.stop, h'.file.trans h.file⟩

theorem advance (p : Parser) : p.Behind p.advance := ⟨List.tail_suffix _, rfl, rfl⟩

theorem stack (p : Parser) (s : List Term) : p.Behind { p with stack := s } :=
  ⟨List.suffix_refl _, rfl, rfl⟩

end Behind

/-- An error is reported at the current token, and names no other one. -/
structure Blames (p : Parser) (e : SyntaxError) : Prop where
  at_current : e = p.errorAt e.problem
  names : ∀ t, e.problem = .unexpected t → t = p.current

theorem Blames.of_ne {problem : Problem} (h : ∀ t, problem ≠ .unexpected t) :
    p.Blames (p.errorAt problem) := ⟨rfl, fun t ht => absurd ht (h t)⟩

/-- A step goes over whole tokens. If it fails, it does so at the token that it has come to. -/
structure Reports (step : Step) : Prop where
  done : ∀ {p q : Parser}, step p = .ok q → p.Behind q
  lost : ∀ {p : Parser} {f : Failure}, step p = .error f → p.Behind f.left ∧ f.left.Blames f.error

namespace Reports

variable {step step' inner : Step}

/-- A step that cannot fail. -/
theorem of_ok {move : Parser → Parser} (h : ∀ p : Parser, p.Behind (move p)) :
    Reports fun p => .ok (move p) where
  done {p _} hstep := by
    cases hstep
    exact h p
  lost hstep := by cases hstep

theorem ok : Reports fun p => .ok p := of_ok Behind.refl

theorem unexpected : Reports Parser.unexpected where
  done hstep := by cases hstep
  lost {p _} hstep := by
    cases hstep
    refine ⟨.refl p, rfl, fun t ht => ?_⟩
    cases ht
    rfl

theorem fail {problem : Problem} (h : ∀ t, problem ≠ .unexpected t) :
    Reports (Parser.fail problem) where
  done hstep := by cases hstep
  lost {p _} hstep := by
    cases hstep
    exact ⟨.refl p, .of_ne h⟩

theorem bind (h : Reports step) (h' : Reports step') : Reports fun p => step p >>= step' where
  done hstep := by
    obtain ⟨m, hm, hq⟩ := bind_eq_ok_iff.1 hstep
    exact (h.done hm).trans (h'.done hq)
  lost hstep := by
    rcases bind_eq_error_iff.1 hstep with hf | ⟨m, hm, hf⟩
    · exact h.lost hf
    · obtain ⟨hleft, herror⟩ := h'.lost hf
      exact ⟨(h.done hm).trans hleft, herror⟩

/-- A step that goes one of several ways. -/
theorem of_cases (h : ∀ p, ∃ way, Reports way ∧ step p = way p) : Reports step where
  done {p _} hstep := by
    obtain ⟨way, hway, heq⟩ := h p
    exact hway.done (heq ▸ hstep)
  lost {p _} hstep := by
    obtain ⟨way, hway, heq⟩ := h p
    exact hway.lost (heq ▸ hstep)

theorem ite (test : Parser → Bool) (h : Reports step) (h' : Reports step') :
    Reports fun p => if test p then step p else step' p := by
  refine .of_cases fun p => ?_
  by_cases htest : test p = true
  · exact ⟨step, h, if_pos htest⟩
  · exact ⟨step', h', if_neg htest⟩

/-- A step behind something that cannot fail. -/
theorem after (h : Reports step) {move : Parser → Parser}
    (hmove : ∀ p : Parser, p.Behind (move p)) : Reports fun p => step (move p) :=
  (of_ok hmove).bind h

/-- A step that takes its stack for another one, or fails with some stack. -/
theorem of_stack (h : ∀ p, ∃ s, step p = .ok { p with stack := s } ∨
    ∃ problem, (∀ t, problem ≠ .unexpected t) ∧
      step p = ({ p with stack := s } : Parser).fail problem) : Reports step where
  done {p q} hstep := by
    obtain ⟨s, hs | ⟨problem, -, hs⟩⟩ := h p
    · cases hs.symm.trans hstep
      exact .stack p s
    · cases hs.symm.trans hstep
  lost {p f} hstep := by
    obtain ⟨s, hs | ⟨problem, hproblem, hs⟩⟩ := h p
    · cases hs.symm.trans hstep
    · cases hs.symm.trans hstep
      exact ⟨.stack p s, .of_ne hproblem⟩

theorem repeatAtMost (test : Parser → Bool) (h : Reports step) (n : Nat) :
    Reports (Parser.repeatAtMost test step n) := by
  induction n with
  | zero => exact .ok
  | succ n ih => exact .ite test (h.bind ih) .ok

theorem many (test : Parser → Bool) (h : Reports step) : Reports (Parser.many test step) :=
  .of_cases fun p => ⟨_, h.repeatAtMost test p.tokens.length, rfl⟩

end Reports

theorem expect_reports (kind : Token.Kind) : Reports (expect kind) :=
  .ite (is kind) (.of_ok .advance) .unexpected

theorem push_behind (t : Term) (p : Parser) : p.Behind (p.push t).advance :=
  (Behind.stack p _).trans (.advance _)

theorem advance_push_behind (t : Term) (p : Parser) : p.Behind (p.advance.push t) :=
  (Behind.advance p).trans (.stack _ _)

theorem identifier_reports : Reports identifier :=
  .ite (is .ident) (.of_ok fun p => push_behind (.ident p.current.name) p) .unexpected

theorem compose_reports : Reports compose := by
  refine .of_stack fun p => ?_
  unfold compose
  split
  · exact ⟨_, .inl rfl⟩
  · exact ⟨_, .inl rfl⟩
  · exact ⟨p.stack, .inr ⟨_, by simp, rfl⟩⟩

theorem chain_reports : Reports chain := by
  refine .of_stack fun p => ?_
  unfold chain
  split
  · exact ⟨_, .inl rfl⟩
  · exact ⟨_, .inl rfl⟩
  · exact ⟨p.stack, .inr ⟨_, by simp, rfl⟩⟩

theorem enclose_reports : Reports enclose := by
  refine .of_stack fun p => ?_
  unfold enclose
  split
  · exact ⟨_, .inl rfl⟩
  · exact ⟨p.stack, .inr ⟨_, by simp, rfl⟩⟩

theorem finishConstructor_reports : Reports finishConstructor := by
  refine .of_stack fun p => ?_
  unfold finishConstructor
  split
  · exact ⟨_, .inl rfl⟩
  · exact ⟨_, .inl rfl⟩
  · exact ⟨p.stack, .inr ⟨_, by simp, rfl⟩⟩

theorem finishSignature_reports : Reports finishSignature := by
  refine .of_stack fun p => ?_
  unfold finishSignature
  split
  · exact ⟨_, .inl rfl⟩
  · exact ⟨_, .inl rfl⟩
  · exact ⟨p.stack, .inr ⟨_, by simp, rfl⟩⟩

theorem finishType_reports : Reports finishType := by
  refine .of_stack fun p => ?_
  unfold finishType
  split
  · exact ⟨[], .inr ⟨_, by simp, rfl⟩⟩
  · exact ⟨_, .inr ⟨_, by simp, rfl⟩⟩
  · exact ⟨_, .inl rfl⟩

theorem finishClause_reports : Reports finishClause := by
  refine .of_stack fun p => ?_
  unfold finishClause
  split
  · exact ⟨[], .inr ⟨_, by simp, rfl⟩⟩
  · split
    · exact ⟨_, .inl rfl⟩
    · exact ⟨_, .inr ⟨_, by simp, rfl⟩⟩

/-! ## Expressions -/

section Expressions

variable {inner : Step} (hinner : Reports inner)

include hinner

theorem factorWith_reports : Reports (factorWith inner) := by
  have hread := (hinner.bind (expect_reports .rparen)).bind enclose_reports
  simp only [bind_assoc] at hread
  exact .ite (is .ident) identifier_reports (.ite (is .lparen) (hread.after .advance) .unexpected)

theorem factorsWith_reports : Reports (factorsWith inner) :=
  ((factorWith_reports hinner).bind compose_reports).many isFactor

theorem termWith_reports : Reports (termWith inner) :=
  (factorWith_reports hinner).bind (factorsWith_reports hinner)

theorem expressionWith_reports : Reports (expressionWith inner) := by
  have hnext : Reports fun p => termWith inner p.advance >>= chain :=
    ((termWith_reports hinner).bind chain_reports).after .advance
  exact (termWith_reports hinner).bind (hnext.many (is .arrow))

end Expressions

theorem expressionWithin_reports (n : Nat) : Reports (expressionWithin n) := by
  induction n with
  | zero => exact .unexpected
  | succ n ih => exact expressionWith_reports ih

theorem expression_reports : Reports expression :=
  .of_cases fun p => ⟨_, expressionWithin_reports p.tokens.length, rfl⟩

/-! ## Statements -/

theorem constructor_reports : Reports constructor := by
  have hread := (identifier_reports.bind (factorsWith_reports expression_reports)).bind
    finishConstructor_reports
  simp only [bind_assoc] at hread
  exact hread

theorem constructors_reports : Reports constructors :=
  (constructor_reports.bind ((constructor_reports.after .advance).many (is .pipe))).after .advance

theorem typeDeclaration_reports : Reports typeDeclaration := by
  have hname : Reports fun p => (p.advance.push .marker).identifier :=
    identifier_reports.after (advance_push_behind .marker)
  have hparts : Reports typeParts := (hname.bind (identifier_reports.many (is .ident))).bind
    (.ite (is .assign) constructors_reports .ok)
  rw [funext typeDeclaration_eq]
  exact hparts.bind finishType_reports

theorem signature_reports : Reports signature := by
  have hparts : Reports signatureParts :=
    (identifier_reports.bind (expect_reports .colon)).bind expression_reports
  rw [funext signature_eq]
  exact hparts.bind finishSignature_reports

theorem builtinSignature_reports : Reports builtinSignature :=
  (signature_reports.ite isSignature .unexpected).after (advance_push_behind .builtinMarker)

theorem parameter_reports : Reports parameter := by
  have hread : Reports fun p => p.expression >>= expect .rparen :=
    expression_reports.bind (expect_reports .rparen)
  exact .ite (is .wildcard) (.of_ok (push_behind (.ident "_"))) (.ite (is .ident) identifier_reports
    (.ite (is .lparen) (hread.after .advance) .unexpected))

theorem clause_reports : Reports clause := by
  have hname : Reports fun p => (p.advance.push .marker).identifier :=
    identifier_reports.after (advance_push_behind .marker)
  have hbody : Reports clauseBody := .ite endsParameters (.fail (by simp))
    (((parameter_reports.many fun p => !p.endsParameters).bind (expect_reports .assign)).bind
      expression_reports)
  rw [funext clause_eq]
  exact (hname.bind hbody).bind finishClause_reports

theorem statement_reports : Reports statement := by
  refine .of_cases fun p => ?_
  unfold statement
  split
  · split
    · exact ⟨_, typeDeclaration_reports, rfl⟩
    · exact ⟨_, builtinSignature_reports, rfl⟩
    · exact ⟨_, .unexpected, rfl⟩
  · split
    · exact ⟨_, clause_reports, rfl⟩
    · split
      · exact ⟨_, signature_reports, rfl⟩
      · exact ⟨_, .unexpected, rfl⟩

theorem statements_reports (n : Nat) : Reports (statements n) := by
  induction n with
  | zero => exact .ok
  | succ n ih =>
    rw [funext (statements_succ n)]
    exact .ite isDone .ok (.ite (is .semicolon) (ih.after .advance)
      (statement_reports.bind (.ite isDone .ok ((expect_reports .semicolon).bind ih))))

theorem wholeExpression_reports : Reports wholeExpression := by
  have hend : Reports fun p => if p.isDone then .ok p else p.unexpected :=
    .ite isDone .ok .unexpected
  have hfinish : Reports finishText := by
    refine hend.after fun p => ?_
    split
    · exact .advance p
    · exact .refl p
  exact expression_reports.bind hfinish

/-! ## Requests -/

/-- An answer is given by a parser that has gone over whole tokens. An error is reported at the
    token that it has come to. -/
structure Answers {α : Type} (p : Parser) (answer : Except SyntaxError α × Parser) : Prop where
  behind : p.Behind answer.2
  blames : ∀ e, answer.1 = .error e → answer.2.Blames e

theorem Answers.ok {α : Type} (h : p.Behind q) (a : α) : p.Answers (.ok a, q) :=
  ⟨h, fun _ he => by cases he⟩

theorem Answers.error (α : Type) {e : SyntaxError} (h : p.Behind q) (he : q.Blames e) :
    p.Answers ((.error e, q) : Except SyntaxError α × Parser) := by
  refine ⟨h, fun e' heq => ?_⟩
  cases heq
  exact he

theorem collect_answers (p : Parser) : p.Answers p.collect := by
  rw [collect]
  split
  · exact .error _ (.refl p) (.of_ne (by simp))
  · exact .ok (.stack p []) _

theorem readProgram_answers (p : Parser) : p.Answers p.readProgram := by
  rw [readProgram]
  split
  · rename_i q hq
    have hread := (statements_reports _).done hq
    exact ⟨hread.trans (collect_answers q).behind, (collect_answers q).blames⟩
  · rename_i f hf
    obtain ⟨hleft, hblames⟩ := (statements_reports _).lost hf
    exact .error _ hleft hblames

theorem readExpression_answers (p : Parser) : p.Answers p.readExpression := by
  rw [readExpression]
  split
  · rename_i f hf
    obtain ⟨hleft, hblames⟩ := wholeExpression_reports.lost hf
    exact .error _ hleft hblames
  · rename_i q hq
    have hread := wholeExpression_reports.done hq
    have hcollect := collect_answers q
    split
    · rename_i e r heq
      rw [heq] at hcollect
      exact .error _ (hread.trans hcollect.behind) (hcollect.blames e rfl)
    · rename_i t r heq
      rw [heq] at hcollect
      exact .ok (hread.trans hcollect.behind) t
    · rename_i ts r _ heq
      rw [heq] at hcollect
      exact .error _ (hread.trans hcollect.behind) (.of_ne (by simp))

/-- The error of an answer, if it is one. -/
def errorOf? {α : Type} : Except SyntaxError α → Option SyntaxError
  | .ok _ => none
  | .error e => some e

/-- What is wrong, if a request cannot be met. -/
def refusal? (p : Parser) : Request → Option SyntaxError
  | .program => errorOf? p.readProgram.1
  | .expression => errorOf? p.readExpression.1

theorem Answers.of_errorOf? {α : Type} {answer : Except SyntaxError α × Parser} {e : SyntaxError}
    (h : p.Answers answer) (he : errorOf? answer.1 = some e) : answer.2.Blames e := by
  cases hanswer : answer.1 with
  | ok a =>
    rw [hanswer] at he
    cases he
  | error e' =>
    rw [hanswer] at he
    cases he
    exact h.blames e hanswer

theorem serve_behind (p : Parser) (request : Request) : p.Behind (p.serve request) := by
  cases request with
  | program => exact (readProgram_answers p).behind
  | expression => exact (readExpression_answers p).behind

theorem refusal?_blames {request : Request} {e : SyntaxError} (h : p.refusal? request = some e) :
    (p.serve request).Blames e := by
  cases request with
  | program => exact (readProgram_answers p).of_errorOf? h
  | expression => exact (readExpression_answers p).of_errorOf? h

/-- Requests go over whole tokens, whether or not they can be met. -/
theorem after_behind (p : Parser) (requests : List Request) : p.Behind (p.after requests) := by
  induction requests generalizing p with
  | nil => exact .refl p
  | cons request requests ih => exact (p.serve_behind request).trans (ih _)

/-- The current token is one of the text, unless it is the end token. -/
theorem Behind.current_mem (h : p.Behind q) (hstop : p.stop.kind = .eof)
    (hkind : q.current.kind ≠ .eof) : q.current ∈ p.tokens := by
  rw [current] at hkind ⊢
  cases htokens : q.tokens with
  | nil =>
    rw [htokens, List.head?_nil, Option.getD_none, h.stop] at hkind
    exact absurd hstop hkind
  | cons t ts =>
    refine h.tokens.mem ?_
    rw [htokens]
    exact List.mem_cons_self

/-- **Positions are true.** Whatever the bytes of a text are, the position of each of its tokens is
    the line and the column of its offset. Whatever a parser of the text was asked for before, an
    error of it is reported at the token that it has come to, which is the one that it names if it
    names one; so, unless that is the end of the text, the error has the line and the column of that
    token. -/
theorem positions_true (bytes : List UInt8) :
    let input := Text.cutMark bytes
    let tokens := Token.scan (Text.ofBytes bytes)
    (∀ token ∈ tokens, token.kind ≠ .eof →
      token.position = Position.ofOffset input token.offset) ∧
    ∀ (file : String) (requests : List Request) (request : Request) (e : SyntaxError),
      ((ofText (Text.ofBytes bytes) file).after requests).refusal? request = some e →
        let here := ((ofText (Text.ofBytes bytes) file).after (requests ++ [request])).current
        e.file = file ∧ e.position = here.position ∧
          (∀ t, e.problem = .unexpected t → t = here) ∧
          (here.kind ≠ .eof →
            here ∈ tokens ∧ e.position = Position.ofOffset input here.offset) := by
  intro input tokens
  have hscan : tokens = _ := Token.scan_ofBytes bytes
  have htrue : ∀ token ∈ tokens, token.kind ≠ .eof →
      token.position = Position.ofOffset input token.offset := by
    intro token htoken hkind
    rw [hscan, List.mem_append, List.mem_singleton] at htoken
    rcases htoken with htoken | rfl
    · exact Token.position_eq_ofOffset ⟨[], rfl, rfl⟩ token htoken
    · exact absurd rfl hkind
  refine ⟨htrue, fun file requests request e he => ?_⟩
  intro here
  let p := Parser.ofText (Text.ofBytes bytes) file
  have hafter : p.after (requests ++ [request]) = (p.after requests).serve request := by
    rw [after, List.foldl_append]
    rfl
  have hblames : (p.after (requests ++ [request])).Blames e := hafter ▸ refusal?_blames he
  have hbehind := p.after_behind (requests ++ [request])
  have hfile : e.file = file := (congrArg SyntaxError.file hblames.at_current).trans hbehind.file
  have hposition : e.position = here.position := congrArg SyntaxError.position hblames.at_current
  refine ⟨hfile, hposition, hblames.names, fun hkind => ?_⟩
  have hmem : here ∈ tokens := by
    -- The parser reads the tokens of the text without its comments.
    have hcurrent := hbehind.current_mem rfl hkind
    exact List.mem_append_left _ (List.mem_filter.1 hcurrent).1
  exact ⟨hmem, hposition.trans (htrue here hmem hkind)⟩

/-- A comment with a character of two bytes, one over two lines, and a byte that begins no character
    where a type is expected. -/
theorem positions_true_stray :
    let bytes : List UInt8 :=
      [0xEF, 0xBB, 0xBF, 0x2D, 0x2D, 0xC3, 0xA9, 0x0D, 0x0A, 0x7B, 0x7B, 0x0A, 0x7D, 0x7D,
        0xC3, 0xA9, 0x20, 0x3A, 0x20, 0xFF]
    let p := Parser.ofText (Text.ofBytes bytes) "f"
    ∃ e, p.refusal? .program = some e ∧ (p.after [.program]).current.kind = .invalid ∧
      (p.after [.program]).current.offset = 16 ∧ e.position = ⟨3, 7⟩ ∧
      e.position = Position.ofOffset (Text.cutMark bytes) 16 := by
  intro bytes p
  have hrefused : p.refusal? .program =
      some ⟨"f", ⟨3, 7⟩, .unexpected ⟨.invalid, [.stray 0xFF], 16, ⟨3, 7⟩⟩⟩ := by
    decide +kernel
  have hkind : (p.after [.program]).current.kind = .invalid := by decide +kernel
  have hoffset : (p.after [.program]).current.offset = 16 := by decide +kernel
  obtain ⟨-, -, -, hhere⟩ := (positions_true bytes).2 "f" [] .program _ hrefused
  refine ⟨_, hrefused, hkind, hoffset, rfl, ?_⟩
  rw [← hoffset]
  exact (hhere (hkind ▸ by decide)).2

end Parser

end Clausal
