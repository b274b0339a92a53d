/-
  Clausal.Parser.Grammar

  The grammar, one step for each of its rules:

    program     = statement { ";" statement }, with any number of ";" around it
    statement   = "decltype" name { name } [ "=" constructor { "|" constructor } ]
                | "builtin" name ":" expression
                | name ":" expression
                | ">" name parameter { parameter } "=" expression
    constructor = name { factor }
    parameter   = "_" | name | "(" expression ")"
    expression  = term { "->" term }
    term        = factor { factor }
    factor      = name | "(" expression ")"

  Repetition and nesting are bounded by the number of tokens left. The bound is never felt:
  each round and each level takes a token, so where it runs out there is no token left, and
  what is done then is what the end of the text asks for.
-/
import Clausal.Parser.Basic

namespace Clausal.Parser

/-- Repeats a step while a test holds, at most `n` times. -/
def repeatAtMost (test : Parser → Bool) (body : Step) : Nat → Step
  | 0, p => .ok p
  | n + 1, p => if test p then body p >>= repeatAtMost test body n else .ok p

/-- Repeats a step while a test holds. The step has to take at least one token. -/
def many (test : Parser → Bool) (body : Step) : Step := fun p =>
  repeatAtMost test body p.tokens.length p

/-! ## Expressions -/

/-- A name or an expression in parentheses; `inner` reads the expression. -/
def factorWith (inner : Step) : Step := fun p =>
  if p.is .ident then p.identifier
  else if p.is .lparen then do
    let p ← inner p.advance
    let p ← p.expect .rparen
    p.enclose
  else p.unexpected

/-- Factors one after the other, each but the first applied to those before it. -/
def factorsWith (inner : Step) : Step :=
  many isFactor fun p => do
    let p ← factorWith inner p
    p.compose

def termWith (inner : Step) : Step := fun p => do
  let p ← factorWith inner p
  factorsWith inner p

/-- One or more terms with arrows between them. -/
def expressionWith (inner : Step) : Step := fun p => do
  let p ← termWith inner p
  many (is .arrow) (fun p => do
    let p ← termWith inner p.advance
    p.chain) p

/-- An expression nested at most `n` deep. -/
def expressionWithin : Nat → Step
  | 0 => unexpected
  | n + 1 => expressionWith (expressionWithin n)

def expression : Step := fun p => expressionWithin p.tokens.length p

/-! ## Statements -/

def constructor : Step := fun p => do
  let p ← p.identifier
  let p ← factorsWith expression p
  p.finishConstructor

def constructors : Step := fun p => do
  let p ← constructor p.advance
  many (is .pipe) (fun p => constructor p.advance) p

def typeDeclaration : Step := fun p => do
  let p ← (p.advance.push .marker).identifier
  let p ← many (is .ident) identifier p
  let p ← if p.is .assign then constructors p else .ok p
  p.finishType

def signature : Step := fun p => do
  let p ← p.identifier
  let p ← p.expect .colon
  let p ← p.expression
  p.finishSignature

/-- Whether a name and a colon come next. -/
def isSignature (p : Parser) : Bool := p.is .ident && p.upcoming.kind = .colon

/-- Reads a signature behind the keyword that makes it a builtin one. -/
def builtinSignature : Step := fun p =>
  let p := p.advance.push .builtinMarker
  if p.isSignature then p.signature else p.unexpected

/-- Reads a parameter of a clause. Its parentheses leave no group behind. -/
def parameter : Step := fun p =>
  if p.is .wildcard then .ok (p.push (.ident "_")).advance
  else if p.is .ident then p.identifier
  else if p.is .lparen then do
    let p ← p.advance.expression
    p.expect .rparen
  else p.unexpected

/-- Whether the parameters of a clause are at their end. -/
def endsParameters (p : Parser) : Bool := p.isDone || p.is .assign

def clause : Step := fun p => do
  let p ← (p.advance.push .marker).identifier
  if p.endsParameters then p.fail .clauseWithoutParameters
  else
    let p ← many (fun p => !p.endsParameters) parameter p
    let p ← p.expect .assign
    let p ← p.expression
    p.finishClause

def statement : Step := fun p =>
  if p.is .keyword then
    match p.current.name with
    | "decltype" => p.typeDeclaration
    | "builtin" => p.builtinSignature
    | _ => p.unexpected
  else if p.is .rule then p.clause
  else if p.isSignature then p.signature
  else p.unexpected

/-- Reads at most `n` statements and semicolons. -/
def statements : Nat → Step
  | 0, p => .ok p
  | n + 1, p =>
    if p.isDone then .ok p
    else if p.is .semicolon then statements n p.advance
    else do
      let p ← p.statement
      if p.isDone then return p
      let p ← p.expect .semicolon
      statements n p

/-! ## Whole texts -/

/-- Reads statements to the end of the text and takes the declarations off the stack. -/
def readProgram (p : Parser) : Except SyntaxError (List Term) × Parser :=
  match statements p.tokens.length p with
  | .ok p => p.collect
  | .error f => (.error f.error, f.left)

/-- Reads one expression, and a semicolon if one follows, up to the end of the text. -/
def wholeExpression : Step := fun p => do
  let p ← p.expression
  let p := if p.is .semicolon then p.advance else p
  if p.isDone then .ok p else p.unexpected

/-- Reads one expression to the end of the text and takes it off the stack. -/
def readExpression (p : Parser) : Except SyntaxError Term × Parser :=
  match p.wholeExpression with
  | .error f => (.error f.error, f.left)
  | .ok p =>
    match p.collect with
    | (.error e, p) => (.error e, p)
    | (.ok [t], p) => (.ok t, p)
    | (.ok ts, p) => (.error (p.errorAt (.expressionCount ts.length)), p)

end Clausal.Parser

namespace Clausal

/-- The declarations of a text. `file` names the text in errors. -/
def parseProgram (t : Text) (file : String) : Except SyntaxError (List Term) :=
  (Parser.ofText t file).readProgram.1

def parseExpression (t : Text) : Except SyntaxError Term :=
  (Parser.ofText t "").readExpression.1

end Clausal
