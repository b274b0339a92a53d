/-
  Clausal.Parser.Basic

  The parser's state and its elementary steps. Leaves and markers are pushed on a stack as
  they are read; a finished construct takes its parts off the stack and pushes the term they
  form. A step that fails hands back the parser as it stands, because a parser may be used
  again after a failure, with what the failed call left on its stack.
-/
import Clausal.Term.Basic
import Clausal.Token.Lexer

namespace Clausal

/-- What is wrong with a text. -/
inductive Problem where
  | unexpected (token : Token)
  | clauseWithoutParameters
  | unbalanced
  | expressionCount (n : Nat)
  | emptyStack
  deriving DecidableEq, Repr

def Problem.describe : Problem → Text
  | .unexpected token => Text.ofString "unexpected token " ++ token.describe
  | .clauseWithoutParameters => Text.ofString "clause without parameters"
  | .unbalanced => Text.ofString "unbalanced declaration"
  | .expressionCount n => Text.ofString s!"expected one expression, got {n}"
  | .emptyStack => Text.ofString "empty stack"

/-- A problem and where it was noticed. `file` is empty for a text that is in no file. -/
structure SyntaxError where
  file : String
  position : Position
  problem : Problem
  deriving DecidableEq, Repr

/-- The error as it is reported: file, position, problem. -/
def SyntaxError.message (e : SyntaxError) : Text :=
  let place := e.position.describe ++ ": "
  Text.ofString (if e.file.isEmpty then place else e.file ++ ":" ++ place) ++ e.problem.describe

/-- A parser: the tokens still to be read, without comments and without the end token, the
    end token, and the stack with its top first. -/
structure Parser where
  file : String
  tokens : List Token
  stop : Token
  stack : List Term
  deriving DecidableEq, Repr

namespace Parser

/-- A new parser for the tokens of a text. -/
def ofText (t : Text) (file : String) : Parser :=
  let t := t.dropMark
  { file := file
    tokens := (Token.tokensFrom .start t).filter (·.kind != .comment)
    stop := Token.endOf t
    stack := [] }

/-- A failure and the parser it leaves behind. -/
structure Failure where
  error : SyntaxError
  left : Parser
  deriving DecidableEq, Repr

/-- A step of the parser. -/
abbrev Step := Parser → Except Failure Parser

/-! ## Looking at tokens -/

/-- The current token. Behind the last one stands the end token. -/
def current (p : Parser) : Token := p.tokens.head?.getD p.stop

def upcoming (p : Parser) : Token := p.tokens.tail.head?.getD p.stop

/-- Whether the current token is of a kind. -/
def is (kind : Token.Kind) (p : Parser) : Bool := p.current.kind = kind

/-- Whether the text has been read to its end. -/
def isDone (p : Parser) : Bool := p.is .eof

/-- Whether a factor of an application can begin here. -/
def isFactor (p : Parser) : Bool := p.is .ident || p.is .lparen

def advance (p : Parser) : Parser := { p with tokens := p.tokens.tail }

/-! ## Failing -/

/-- The error of a problem at the current token. -/
def errorAt (p : Parser) (problem : Problem) : SyntaxError :=
  ⟨p.file, p.current.position, problem⟩

/-- Stops with a problem at the current token. -/
def fail (problem : Problem) : Step := fun p => .error ⟨p.errorAt problem, p⟩

def unexpected : Step := fun p => p.fail (.unexpected p.current)

/-- Goes past a token of the given kind. -/
def expect (kind : Token.Kind) : Step := fun p =>
  if p.is kind then .ok p.advance else p.unexpected

/-! ## Building on the stack -/

/-- The parser with one more term on its stack. -/
def push (t : Term) (p : Parser) : Parser := { p with stack := t :: p.stack }

def identifier : Step := fun p =>
  if p.is .ident then .ok (p.push (.ident p.current.name)).advance else p.unexpected

/-- Joins the two topmost terms into an application. An application below grows by the term
    above it. -/
def compose : Step := fun p =>
  match p.stack with
  | last :: .app elems :: rest => .ok { p with stack := .app (elems ++ [last]) :: rest }
  | last :: first :: rest => .ok { p with stack := .app [first, last] :: rest }
  | _ => p.fail .emptyStack

/-- Joins the two topmost terms into an arrow. An arrow below grows by the term above it. -/
def chain : Step := fun p =>
  match p.stack with
  | last :: .arrow elems :: rest => .ok { p with stack := .arrow (elems ++ [last]) :: rest }
  | last :: first :: rest => .ok { p with stack := .arrow [first, last] :: rest }
  | _ => p.fail .emptyStack

/-- Puts the topmost term in parentheses. -/
def enclose : Step := fun p =>
  match p.stack with
  | t :: rest => .ok { p with stack := .group t :: rest }
  | [] => p.fail .emptyStack

/-- Makes the topmost term an application, if it is none yet. -/
def finishConstructor : Step := fun p =>
  match p.stack with
  | .app elems :: rest => .ok { p with stack := .app elems :: rest }
  | t :: rest => .ok { p with stack := .app [t] :: rest }
  | [] => p.fail .emptyStack

/-- Joins the two topmost terms into a signature. A builtin marker right below them is used
    up, and makes the signature a builtin one. -/
def finishSignature : Step := fun p =>
  match p.stack with
  | type :: name :: .builtinMarker :: rest =>
    .ok { p with stack := .builtin name type :: rest }
  | type :: name :: rest => .ok { p with stack := .isa name type :: rest }
  | _ => p.fail .emptyStack

/-- Splits a stack at its topmost marker: the terms above it in the order they were pushed,
    in front of `above`, and the stack below. -/
def sinceMarker (above : List Term) : List Term → Option (List Term × List Term)
  | [] => none
  | .marker :: rest => some (above, rest)
  | t :: rest => sinceMarker (t :: above) rest

/-- Makes a type declaration of the terms above the topmost marker. -/
def finishType : Step := fun p =>
  match sinceMarker [] p.stack with
  | none => ({ p with stack := [] } : Parser).fail .unbalanced
  | some ([], rest) => ({ p with stack := rest } : Parser).fail .emptyStack
  | some (elems, rest) => .ok { p with stack := .entity elems :: rest }

/-- Makes a clause of the terms above the topmost marker: the last one is the body, those
    before it are the pattern. -/
def finishClause : Step := fun p =>
  match sinceMarker [] p.stack with
  | none => ({ p with stack := [] } : Parser).fail .unbalanced
  | some (elems, rest) =>
    match elems.dropLast, elems.getLast? with
    | name :: params, some body =>
      .ok { p with stack := .define (.app (name :: params)) body :: rest }
    | _, _ => ({ p with stack := rest } : Parser).fail .emptyStack

/-- Whether a term only marks a place on the stack. -/
def isMark : Term → Bool
  | .marker => true
  | .builtinMarker => true
  | _ => false

/-- Takes everything off the stack, in the order it was pushed. A marker that is still there
    belongs to a declaration that was never finished. -/
def collect (p : Parser) : Except SyntaxError (List Term) × Parser :=
  if p.stack.any isMark then (.error (p.errorAt .unbalanced), p)
  else (.ok p.stack.reverse, { p with stack := [] })

end Parser

end Clausal
