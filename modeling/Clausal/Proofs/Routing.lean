/-
  Clausal.Proofs.Routing

  A session tells declarations from expressions by the first two tokens of a line, and the parser by
  the first two symbols. Symbols are what is left of the tokens when the comments are taken out, so
  the two see the same as long as no comment stands among the first two tokens and no semicolon
  before the first statement. Such lines are called plain (`isPlain`).

    * `isDeclaration_eq`: a line passes for a declaration if it is plain and its symbols begin like a
      statement;
    * `plain_lines_routed_as_read`: an expression never passes for a declaration, and a declaration
      passes for one if its line is plain, and only then.
-/
import Clausal.Proofs.Spelling
import Clausal.Session

namespace Clausal

open Grammar

/-! ## How statements and expressions begin -/

/-- Whether symbols begin like a statement: with a keyword, with the mark of a clause, or with a
    name and a colon. -/
def declares : List Symbol → Bool
  | .keyword _ :: _ => true
  | .mark .rule :: _ => true
  | .name _ :: .mark .colon :: _ => true
  | _ => false

/-- Before a statement there may be semicolons. -/
theorem declares_of_source {d : Source} (hterms : d.terms ≠ [])
    (hsemicolon : d.symbols.head? ≠ some (.mark .semicolon)) : declares d.symbols = true := by
  cases d with
  | empty n => exact absurd rfl hterms
  | of leading first more trailing =>
    cases leading with
    | zero => cases first <;> rfl
    | succ n => exact absurd rfl hsemicolon

/-- Of what begins like a factor, only a name with a colon behind it begins like a statement. -/
theorem exists_colon_of_declares {ws : List Symbol} (hopens : ws.head?.any opensFactor = true)
    (h : declares ws = true) : ∃ n rest, ws = .name n :: .mark .colon :: rest := by
  unfold declares at h
  split at h
  · cases hopens
  · cases hopens
  · exact ⟨_, _, rfl⟩
  · cases h

/-- An expression does not begin like a statement: a colon behind its first name would end it, and
    only a semicolon may follow an expression. -/
theorem not_declares_expression (e : Expression) (semicolon : Bool) :
    declares (e.symbols ++ semicolons semicolon.toNat) = false := by
  have hopens : (e.symbols ++ semicolons semicolon.toNat).head?.any opensFactor = true := by
    obtain ⟨⟨f, fs⟩, ps⟩ := e
    rw [Expression.symbols, Phrase.symbols, List.append_assoc, List.append_assoc]
    exact f.opens _
  have hstops : Stops continues (semicolons semicolon.toNat) := by
    cases semicolon <;> rfl
  rw [← Bool.not_eq_true]
  intro hdeclares
  obtain ⟨n, rest, heq⟩ := exists_colon_of_declares hopens hdeclares
  have hrest := (e.cuts (.of (.of (.name n) []) []) _ (.mark .colon :: rest) hstops rfl heq).2
  cases semicolon <;> cases hrest

/-! ## How lines begin -/

/-- Whether a line shows its first statement at once: it does not begin with a comment or a
    semicolon, nor with a name and a comment. -/
def isPlain (line : Text) : Bool :=
  match (Token.scan line).map Token.kind with
  | .comment :: _ => false
  | .semicolon :: _ => false
  | .ident :: .comment :: _ => false
  | _ => true

/-- What a line passes for is read off the kinds of its first two tokens. -/
theorem isDeclaration_eq_kinds (line : Text) :
    isDeclaration line =
      match (Token.scan line).map Token.kind with
      | .keyword :: _ => true
      | .rule :: _ => true
      | .ident :: .colon :: _ => true
      | _ => false := by
  rw [isDeclaration]
  rcases Token.scan line with _ | ⟨first, _ | ⟨second, rest⟩⟩
  · rfl
  · cases h : first.kind <;> simp [h]
  · cases h : first.kind with
    | ident => cases h' : second.kind <;> simp [h, h']
    | _ => simp [h]

/-- A line passes for a declaration if it is plain and its symbols begin like a statement. -/
theorem isDeclaration_eq (line : Text) :
    isDeclaration line = (isPlain line && declares line.dropMark.symbols) := by
  rw [isDeclaration_eq_kinds, isPlain, Token.scan, Text.symbols, Text.symbolsFrom]
  have hstop : (Token.endOf line.dropMark).kind = .eof := rfl
  generalize Token.endOf line.dropMark = stop at hstop
  rcases Token.tokensFrom .start line.dropMark with _ | ⟨first, _ | ⟨second, rest⟩⟩
  · simp [hstop, declares]
  · cases h : first.kind <;> simp [h, hstop, declares, Token.symbol]
  · cases h : first.kind with
    | ident => cases h' : second.kind <;> simp [h, h', declares, Token.symbol]
    | _ => simp [h, declares, Token.symbol]

theorem isPlain_not_semicolon {line : Text} (h : isPlain line = true) :
    line.dropMark.symbols.head? ≠ some (.mark .semicolon) := by
  rw [isPlain, Token.scan] at h
  rw [Text.symbols, Text.symbolsFrom]
  generalize Token.tokensFrom .start line.dropMark = tokens at h ⊢
  rcases tokens with _ | ⟨first, rest⟩
  · simp
  · -- A first token that is no comment is the first symbol as well.
    cases hkind : first.kind with
    | comment => simp [hkind] at h
    | semicolon => simp [hkind] at h
    | _ => simp [hkind, Token.symbol]

/-- **Plain lines are routed as they are read.** A line that can be read as an expression does not
    pass for a declaration. A line that can be read as one or more declarations passes for one if it
    is plain, and only then: a comment or a semicolon before the first statement hides it, and so
    does a comment between the name and the colon of a signature. -/
theorem plain_lines_routed_as_read (line : Text) :
    (∀ t, parseExpression line = .ok t → isDeclaration line = false) ∧
      ∀ file ts, parseProgram line file = .ok ts → ts ≠ [] →
        (isDeclaration line = true ↔ isPlain line = true) := by
  constructor
  · intro t ht
    obtain ⟨e, semicolon, hsymbols, -⟩ := parseExpression_iff.1 ht
    rw [isDeclaration_eq, ← hsymbols, not_declares_expression, Bool.and_false]
  · intro file ts hts hne
    obtain ⟨d, hsymbols, rfl⟩ := parseProgram_iff.1 hts
    rw [isDeclaration_eq, Bool.and_eq_true]
    refine ⟨fun h => h.1, fun hplain => ⟨hplain, ?_⟩⟩
    have hfirst := isPlain_not_semicolon hplain
    rw [← hsymbols] at hfirst ⊢
    exact declares_of_source hne hfirst

/-- A comment behind the first two tokens hides nothing. -/
theorem plain_lines_routed_as_read_signature :
    parseProgram (Text.ofString "f : {{ from }} t -- to\n -> t") ""
        = .ok [.isa (.ident "f") (.arrow [.ident "t", .ident "t"])] ∧
      isDeclaration (Text.ofString "f : {{ from }} t -- to\n -> t") = true := by
  have hread : parseProgram (Text.ofString "f : {{ from }} t -- to\n -> t") ""
      = .ok [.isa (.ident "f") (.arrow [.ident "t", .ident "t"])] := by
    decide +kernel
  refine ⟨hread, ?_⟩
  exact ((plain_lines_routed_as_read _).2 "" _ hread (by simp)).2 (by decide +kernel)

/-- A comment before a signature hides it: the line is taken for an expression, which it is not. -/
theorem comment_hides_declaration :
    parseProgram (Text.ofString "{{ note }} f : t") "" = .ok [.isa (.ident "f") (.ident "t")] ∧
      isDeclaration (Text.ofString "{{ note }} f : t") = false := by
  decide +kernel

end Clausal
