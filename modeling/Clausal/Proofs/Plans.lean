/-
  Clausal.Proofs.Plans

  What a step of the parser does, laid out as data. A plan (`Parser.Plan`) is put together from
  going past a token, putting a term on the stack and the actions (`Parser.Action`), one after the
  other or by what the parser looks like. Nothing is taken off the stack but by an action, so that
  the actions a plan comes to, and the stacks on which it comes to them (`Plan.visits`), are all
  there is to say about what is taken off.

  Each rule of the grammar has its plan, and carrying out the plan is the step that reads the rule
  (`Plan.run_statement`, `Plan.run_statements`, `Plan.run_wholeExpression`).
-/
import Clausal.Proofs.Recognition

namespace Clausal.Parser

/-! ## Actions and plans -/

/-- What is done to the terms on top of the stack. The actions that end a declaration come with the
    stack on which it was begun. They do not look at it. -/
inductive Action where
  | compose
  | chain
  | enclose
  | finishConstructor
  | finishSignature
  | finishType (below : List Term)
  | finishClause (below : List Term)
  deriving DecidableEq, Repr

def Action.run : Action → Step
  | .compose => Parser.compose
  | .chain => Parser.chain
  | .enclose => Parser.enclose
  | .finishConstructor => Parser.finishConstructor
  | .finishSignature => Parser.finishSignature
  | .finishType _ => Parser.finishType
  | .finishClause _ => Parser.finishClause

/-- What a step does. A plan gives up at a token that is not expected, or where a clause has no
    parameters. -/
inductive Plan where
  | done
  | unexpected
  | withoutParameters
  | advance
  | push (t : Parser → Term)
  | act (a : Action)
  | andThen (first second : Plan)
  | choose (way : Parser → Plan)

namespace Plan

/-- The step that carries out a plan. -/
def run : Plan → Step
  | .done, p => .ok p
  | .unexpected, p => p.unexpected
  | .withoutParameters, p => p.fail .clauseWithoutParameters
  | .advance, p => .ok p.advance
  | .push t, p => .ok (p.push (t p))
  | .act a, p => a.run p
  | .andThen first second, p => first.run p >>= second.run
  | .choose way, p => (way p).run p

/-- The actions that a plan comes to, in order, and what is on the stack then. -/
def visits : Plan → Parser → List (Action × List Term)
  | .act a, p => [(a, p.stack)]
  | .andThen first second, p =>
    first.visits p ++ match first.run p with
      | .ok q => second.visits q
      | .error _ => []
  | .choose way, p => (way p).visits p
  | _, _ => []

def branch (test : Parser → Bool) (yes no : Plan) : Plan :=
  .choose fun p => if test p then yes else no

def repeatAtMost (test : Parser → Bool) (body : Plan) : Nat → Plan
  | 0 => .done
  | n + 1 => branch test (body.andThen (repeatAtMost test body n)) .done

def many (test : Parser → Bool) (body : Plan) : Plan :=
  .choose fun p => repeatAtMost test body p.tokens.length

/-! ## The grammar as plans -/

def expect (kind : Token.Kind) : Plan := branch (is kind) .advance .unexpected

def identifier : Plan :=
  branch (is .ident) (.andThen (.push fun p => .ident p.current.name) .advance) .unexpected

def factorWith (inner : Plan) : Plan :=
  branch (is .ident) identifier
    (branch (is .lparen)
      (.andThen .advance (inner.andThen ((expect .rparen).andThen (.act .enclose))))
      .unexpected)

def factorsWith (inner : Plan) : Plan := many isFactor ((factorWith inner).andThen (.act .compose))

def termWith (inner : Plan) : Plan := (factorWith inner).andThen (factorsWith inner)

def expressionWith (inner : Plan) : Plan :=
  (termWith inner).andThen
    (many (is .arrow) (.andThen .advance ((termWith inner).andThen (.act .chain))))

def expressionWithin : Nat → Plan
  | 0 => .unexpected
  | n + 1 => expressionWith (expressionWithin n)

def expression : Plan := .choose fun p => expressionWithin p.tokens.length

def constructor : Plan :=
  identifier.andThen ((factorsWith expression).andThen (.act .finishConstructor))

def constructors : Plan :=
  .andThen .advance (constructor.andThen (many (is .pipe) (.andThen .advance constructor)))

/-- The parts of a type, above a marker. -/
def typeParts : Plan :=
  .andThen .advance (.andThen (.push fun _ => .marker)
    (identifier.andThen ((many (is .ident) identifier).andThen
      (branch (is .assign) constructors .done))))

def typeDeclaration : Plan := .choose fun p => typeParts.andThen (.act (.finishType p.stack))

def signatureParts : Plan := identifier.andThen ((expect .colon).andThen expression)

def signature : Plan := signatureParts.andThen (.act .finishSignature)

def builtinSignature : Plan :=
  .andThen .advance (.andThen (.push fun _ => .builtinMarker)
    (branch isSignature signature .unexpected))

def parameter : Plan :=
  branch (is .wildcard) (.andThen (.push fun _ => .ident "_") .advance)
    (branch (is .ident) identifier
      (branch (is .lparen) (.andThen .advance (expression.andThen (expect .rparen))) .unexpected))

def clauseBody : Plan :=
  branch endsParameters .withoutParameters
    ((many (fun p => !p.endsParameters) parameter).andThen ((expect .assign).andThen expression))

/-- The parts of a clause, above a marker. -/
def clauseParts : Plan :=
  .andThen .advance (.andThen (.push fun _ => .marker) (identifier.andThen clauseBody))

def clause : Plan := .choose fun p => clauseParts.andThen (.act (.finishClause p.stack))

/-- Whether the current token has a name. -/
def isNamed (name : String) (p : Parser) : Bool := p.current.name = name

def statement : Plan :=
  branch (is .keyword)
    (branch (isNamed "decltype") typeDeclaration
      (branch (isNamed "builtin") builtinSignature .unexpected))
    (branch (is .rule) clause (branch isSignature signature .unexpected))

def statements : Nat → Plan
  | 0 => .done
  | n + 1 =>
    branch isDone .done
      (branch (is .semicolon) (.andThen .advance (statements n))
        (statement.andThen
          (branch isDone .done ((expect .semicolon).andThen (statements n)))))

/-- Goes past a semicolon if there is one, and wants the text to end there. -/
def finishText : Plan :=
  (branch (is .semicolon) .advance .done).andThen (branch isDone .done .unexpected)

def wholeExpression : Plan := expression.andThen finishText

/-! ## Carrying out plans -/

variable {x y : Plan} {step step' : Step}

theorem run_done : done.run = fun p => .ok p := rfl

theorem run_unexpected : unexpected.run = Parser.unexpected := rfl

theorem run_act (a : Action) : (act a).run = a.run := rfl

theorem run_andThen (hx : x.run = step) (hy : y.run = step') :
    (x.andThen y).run = fun p => step p >>= step' := by
  funext p
  rw [run, hx, hy]

theorem run_advance_andThen (hy : y.run = step') :
    (advance.andThen y).run = fun p => step' p.advance := by
  funext p
  rw [run, hy]
  rfl

theorem run_push_andThen (t : Parser → Term) (hy : y.run = step') :
    ((push t).andThen y).run = fun p => step' (p.push (t p)) := by
  funext p
  rw [run, hy]
  rfl

theorem run_branch (test : Parser → Bool) (hx : x.run = step) (hy : y.run = step') :
    (branch test x y).run = fun p => if test p then step p else step' p := by
  funext p
  rw [branch, run, ← hx, ← hy]
  split <;> rfl

theorem run_repeatAtMost (test : Parser → Bool) (hx : x.run = step) (n : Nat) :
    (repeatAtMost test x n).run = Parser.repeatAtMost test step n := by
  induction n with
  | zero => rfl
  | succ n ih => exact run_branch test (run_andThen hx ih) run_done

theorem run_many (test : Parser → Bool) (hx : x.run = step) :
    (many test x).run = Parser.many test step := by
  funext p
  rw [many, run, run_repeatAtMost test hx, Parser.many]

theorem run_expect (kind : Token.Kind) : (expect kind).run = Parser.expect kind :=
  run_branch (is kind) rfl run_unexpected

theorem run_identifier : identifier.run = Parser.identifier :=
  run_branch (is .ident) rfl run_unexpected

theorem run_factorWith (hx : x.run = step) : (factorWith x).run = Parser.factorWith step := by
  have hparen := run_andThen hx (run_andThen (run_expect .rparen) (run_act .enclose))
  rw [factorWith, run_branch (is .ident) run_identifier
    (run_branch (is .lparen) (run_advance_andThen hparen) run_unexpected)]
  rfl

theorem run_factorsWith (hx : x.run = step) : (factorsWith x).run = Parser.factorsWith step := by
  rw [factorsWith, run_many isFactor (run_andThen (run_factorWith hx) (run_act .compose))]
  rfl

theorem run_termWith (hx : x.run = step) : (termWith x).run = Parser.termWith step :=
  run_andThen (run_factorWith hx) (run_factorsWith hx)

theorem run_expressionWith (hx : x.run = step) :
    (expressionWith x).run = Parser.expressionWith step := by
  have hmore := run_advance_andThen (run_andThen (run_termWith hx) (run_act .chain))
  rw [expressionWith, run_andThen (run_termWith hx) (run_many (is .arrow) hmore)]
  rfl

theorem run_expressionWithin (n : Nat) :
    (expressionWithin n).run = Parser.expressionWithin n := by
  induction n with
  | zero => rfl
  | succ n ih => exact run_expressionWith ih

theorem run_expression : expression.run = Parser.expression := by
  funext p
  rw [expression, run, run_expressionWithin, Parser.expression]

theorem run_constructor : constructor.run = Parser.constructor := by
  have hargs := run_andThen (run_factorsWith run_expression) (run_act .finishConstructor)
  rw [constructor, run_andThen run_identifier hargs]
  rfl

theorem run_constructors : constructors.run = Parser.constructors := by
  have hmore := run_many (is .pipe) (run_advance_andThen run_constructor)
  rw [constructors, run_advance_andThen (run_andThen run_constructor hmore)]
  rfl

theorem run_typeParts : typeParts.run = Parser.typeParts := by
  have hrest := run_andThen run_identifier (run_andThen (run_many (is .ident) run_identifier)
    (run_branch (is .assign) run_constructors run_done))
  rw [typeParts, run_advance_andThen (run_push_andThen _ hrest)]
  funext p
  rw [Parser.typeParts, bind_assoc]

theorem run_typeDeclaration : typeDeclaration.run = Parser.typeDeclaration := by
  funext p
  rw [typeDeclaration_eq, typeDeclaration, run, run_andThen run_typeParts (run_act _)]
  rfl

theorem run_signatureParts : signatureParts.run = Parser.signatureParts := by
  rw [signatureParts, run_andThen run_identifier (run_andThen (run_expect .colon) run_expression)]
  funext p
  rw [Parser.signatureParts, bind_assoc]

theorem run_signature : signature.run = Parser.signature := by
  funext p
  rw [signature_eq, signature, run_andThen run_signatureParts (run_act .finishSignature)]
  rfl

theorem run_builtinSignature : builtinSignature.run = Parser.builtinSignature := by
  have hguarded := run_branch isSignature run_signature run_unexpected
  rw [builtinSignature, run_advance_andThen (run_push_andThen _ hguarded)]
  rfl

theorem run_parameter : parameter.run = Parser.parameter := by
  have hparen := run_advance_andThen (run_andThen run_expression (run_expect .rparen))
  have hwildcard := run_push_andThen (fun _ => .ident "_") (y := .advance) rfl
  rw [parameter, run_branch (is .wildcard) hwildcard (run_branch (is .ident) run_identifier
    (run_branch (is .lparen) hparen run_unexpected))]
  rfl

theorem run_clauseBody : clauseBody.run = Parser.clauseBody := by
  have hbody := run_andThen (run_many (fun p => !p.endsParameters) run_parameter)
    (run_andThen (run_expect .assign) run_expression)
  rw [clauseBody, run_branch endsParameters (x := .withoutParameters) rfl hbody]
  funext p
  rw [Parser.clauseBody, bind_assoc]
  rfl

theorem run_clauseParts : clauseParts.run = Parser.clauseParts := by
  rw [clauseParts, run_advance_andThen (run_push_andThen _ (run_andThen run_identifier
    run_clauseBody))]
  rfl

theorem run_clause : clause.run = Parser.clause := by
  funext p
  rw [clause_eq, clause, run, run_andThen run_clauseParts (run_act _)]
  rfl

/-- A keyword is told by its name. -/
theorem keywordStatement_eq (p : Parser) :
    (match p.current.name with
      | "decltype" => p.typeDeclaration
      | "builtin" => p.builtinSignature
      | _ => p.unexpected) =
    if isNamed "decltype" p then p.typeDeclaration
    else if isNamed "builtin" p then p.builtinSignature else p.unexpected := by
  simp only [isNamed, decide_eq_true_iff]
  split
  · rename_i hname
    rw [if_pos hname]
  · rename_i hname
    rw [if_neg (by rw [hname]; decide), if_pos hname]
  · rename_i htype hbuiltin
    rw [if_neg htype, if_neg hbuiltin]

theorem run_statement : statement.run = Parser.statement := by
  have hkeyword := run_branch (isNamed "decltype") run_typeDeclaration
    (run_branch (isNamed "builtin") run_builtinSignature run_unexpected)
  rw [statement, run_branch (is .keyword) hkeyword (run_branch (is .rule) run_clause
    (run_branch isSignature run_signature run_unexpected))]
  funext p
  rw [← keywordStatement_eq]
  rfl

theorem run_statements (n : Nat) : (statements n).run = Parser.statements n := by
  induction n with
  | zero => rfl
  | succ n ih =>
    have hrest := run_branch isDone run_done (run_andThen (run_expect .semicolon) ih)
    funext p
    rw [statements_succ, statements, run_branch isDone run_done (run_branch (is .semicolon)
      (run_advance_andThen ih) (run_andThen run_statement hrest))]

theorem run_finishText : finishText.run = Parser.finishText := by
  have hskip := run_branch (is .semicolon) (x := .advance) rfl run_done
  rw [finishText, run_andThen hskip (run_branch isDone run_done run_unexpected)]
  funext p
  rw [Parser.finishText]
  split <;> rfl

theorem run_wholeExpression : wholeExpression.run = Parser.wholeExpression :=
  run_andThen run_expression run_finishText

end Plan

end Clausal.Parser
