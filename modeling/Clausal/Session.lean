/-
  Clausal.Session

  A session: declarations are collected line by line and expressions are reduced against them.
  A line is a declaration, an expression or a command, by what it begins with. Declarations that
  do not load are dropped as a whole; an expression is reduced by an evaluator of its own, and an
  interrupt that is still raised is withdrawn before, so none depends on those before it.
-/
import Clausal.Evaluator
import Clausal.Parser.Grammar
import Clausal.Term.Digest
import Clausal.Text.Colour

namespace Clausal

/-- Names on one line, or a dash where there are none. -/
def joinNames (names : List String) : String :=
  if names.isEmpty then "-" else joinWith " " names

/-- Whether a line declares something: it begins with a keyword, with the mark of a clause, or
    with a name and a colon. -/
def isDeclaration (line : Text) : Bool :=
  match Token.scan line with
  | first :: rest =>
    match first.kind with
    | .keyword => true
    | .rule => true
    | .ident => rest.head?.any (·.kind = .colon)
    | _ => false
  | [] => false

/-- What a line may be. -/
inductive Route where
  | blank
  | command
  | declaration
  | expression
  deriving DecidableEq, Repr

/-- What a line without blanks at its ends is, by what it begins with. -/
def Route.of (line : Text) : Route :=
  if line.isEmpty then .blank
  else if Text.startsWith (Piece.is ':') line then .command
  else if isDeclaration line then .declaration
  else .expression

/-- The declarations so far and the program that they make. -/
structure Session where
  config : Config
  declarations : List Term
  program : Program
  deriving Repr

namespace Session

/-- What is wrong with a line. -/
inductive Fault where
  | unreadable (e : SyntaxError)
  | refused (e : LoadError)
  | failed (f : Failure)
  | unfinished
  | unknownCommand (word : Text)
  deriving Repr

def Fault.message : Fault → Text
  | .unreadable e => e.message
  | .refused e => Text.ofString e.message
  | .failed f => Text.ofString f.message
  | .unfinished => Text.ofString "unfinished"
  | .unknownCommand word => word ++ Text.ofString ": unknown command"

/-- What comes of a line: whether the session is over, what is printed, what is wrong, and the
    session and the interrupt after it. -/
structure Reply where
  done : Bool
  output : String
  fault : Option Fault
  session : Session
  signal : Signal

def start (config : Config) (declarations : List Term) : Except LoadError Session := do
  let program ← Program.load config.linear declarations
  return ⟨config, declarations, program⟩

/-- The session with more declarations, provided that all of them load together. -/
def declare (s : Session) (more : List Term) : Except LoadError Session :=
  start s.config (s.declarations ++ more)

/-- A line that only prints. -/
def prints (s : Session) (signal : Signal) (output : String) : Reply :=
  ⟨false, output, none, s, signal⟩

/-- A line that is refused. -/
def refuses (s : Session) (signal : Signal) (fault : Fault) : Reply :=
  ⟨false, "", some fault, s, signal⟩

def declareLine (s : Session) (signal : Signal) (line : Text) : Reply :=
  match parseProgram line "" with
  | .error e => s.refuses signal (.unreadable e)
  | .ok more =>
    match s.declare more with
    | .error e => s.refuses signal (.refused e)
    | .ok s => s.prints signal ""

/-- Carries out a line that is an expression. -/
def evaluateLine (s : Session) (signal : Signal) (colour : Bool) (line : Text) : Reply :=
  match parseExpression line with
  | .error e => s.refuses signal (.unreadable e)
  | .ok t =>
    let evaluation := (Evaluator.new s.program s.config signal.lowered).reduce t
    let signal := evaluation.evaluator.signal
    match evaluation.outcome with
    | .failure f => s.refuses signal (.failed f)
    | .unfinished => s.refuses signal .unfinished
    | .value v =>
      s.prints signal
        (Colour.blue.paint colour v.printed ++ s!" ({evaluation.evaluator.steps} steps)\n")

/-- The signature and the clauses of a function. -/
def describeFunction (p : Program) (name : String) (clauses : List Clause) : String :=
  let signature :=
    match p.bindings.get? name with
    | some type => name ++ " : " ++ type.shown ++ "\n"
    | none => ""
  signature ++ String.join (clauses.map fun c => "  " ++ c.term.render ++ "\n")

def describe (s : Session) : String :=
  "types: " ++ joinNames s.program.types.names ++ "\n" ++
    String.join (s.program.clauses.entries.map fun entry =>
      describeFunction s.program entry.1 entry.2)

/-- Carries out a command, known by its first word. -/
def commandLine (s : Session) (signal : Signal) (line : Text) : Reply :=
  match line.firstWord.toString? with
  | some ":quit" => ⟨true, "", none, s, signal⟩
  | some ":q" => ⟨true, "", none, s, signal⟩
  | some ":defs" => s.prints signal s.describe
  | some ":digest" => s.prints signal (Term.digestAll s.declarations ++ "\n")
  | some ":help" => s.prints signal ":defs, :digest, :quit\n"
  | _ => s.refuses signal (.unknownCommand line.firstWord)

/-- Carries out a line, with the interrupt as it stands when the line is given. -/
def execute (s : Session) (colour : Bool) (line : Text) (signal : Signal := .quiet) : Reply :=
  let line := line.trim
  match Route.of line with
  | .blank => s.prints signal ""
  | .command => s.commandLine signal line
  | .declaration => s.declareLine signal line
  | .expression => s.evaluateLine signal colour line

end Session

end Clausal
