/-
  Clausal.Command.Basic

  The commands. `Invocation.ofWords` reads a command line into what it asks for, `execute`
  carries it out over what it finds under the paths it names, and `Report` is what comes of it:
  an exit code, two streams of text, and the files to write.
-/
import Clausal.Archive.Ending
import Clausal.Archive.Listing
import Clausal.Command.Arguments
import Clausal.Command.Finding
import Clausal.Command.Number
import Clausal.Command.Repl

namespace Clausal

def usage : String :=
  "usage: husk <command> [options] [file]\n" ++
  "\n" ++
  "commands:\n" ++
  "  run   [-l] [-v] [-e entry] [-a seed] [-s steps] [-d depth] [-t db] file\n" ++
  "        with -t and no -s, steps are bounded by 100000\n" ++
  "  parse [-q] file\n" ++
  "  scan  file\n" ++
  "  repl  [-l] [-s steps] [-d depth] [file]\n" ++
  "  trace [-s] [-r run] db\n"

/-! ## What is asked for -/

/-- What a command line asks for. -/
inductive Invocation where
  | nothing
  | help
  /-- To run a program. An empty `archive` keeps no record of it. -/
  | run (config : Config) (verbose : Bool) (archive file : String)
  | parse (quiet : Bool) (file : String)
  | scan (file : String)
  | repl (config : Config) (file : Option String)
  | trace (summary : Bool) (id : Nat) (archive : String)

/-- Why a command is not carried out. -/
inductive CommandFault where
  | unknownCommand (word : String)
  | badOption (f : OptionFault)
  | badNumber (letter : Char) (reader text : String) (f : NumberFault)
  | badSeed (e : SyntaxError)
  | wrongCount (command wanted : String)
  | cannotOpen (f : OpenFault)
  | invalidToken (complaint : Text)
  | unreadable (e : SyntaxError)
  | refused (e : LoadError)
  | failed (f : Failure)
  | wrongEntry (f : EntryFault)
  | unfinished
  | archive (f : Archive.Fault)

def CommandFault.message : CommandFault → Text
  | .unknownCommand word => Text.ofString (word ++ ": unknown command")
  | .badOption f => Text.ofString f.message
  | .badNumber letter reader text f =>
    Text.ofString ("-" ++ String.singleton letter ++ ": " ++ f.complaint reader text)
  | .badSeed e => Text.ofString "-a: " ++ e.message
  | .wrongCount command wanted => Text.ofString (command ++ ": expected one " ++ wanted)
  | .cannotOpen f => Text.ofString f.message
  | .invalidToken complaint => complaint
  | .unreadable e => e.message
  | .refused e => Text.ofString e.message
  | .failed f => Text.ofString f.message
  | .wrongEntry f => Text.ofString f.message
  | .unfinished => Text.ofString "unfinished"
  | .archive f => Text.ofString f.message

namespace Invocation

def signedValue (option : Given) : Except CommandFault Int :=
  (readSigned option.value.toList).mapError (.badNumber option.letter "Atoi" option.value)

/-- The settings with one option applied to them. -/
def configure (c : Config) (option : Given) : Except CommandFault Config :=
  match option.letter with
  | 'l' => .ok { c with linear := true }
  | 's' => (signedValue option).map fun n => { c with maxSteps := n }
  | 'd' => (signedValue option).map fun n => { c with maxDepth := n }
  | 'e' => .ok { c with entry := option.value }
  | 'a' =>
    match parseExpression (Text.ofString option.value) with
    | .ok t => .ok { c with seed := t }
    | .error e => .error (.badSeed e)
  | _ => .ok c

/-- Reads the options of a command and the words behind them. -/
def options (letters : Letters) (words : List String) :
    Except CommandFault (List Given × List String) :=
  (Given.ofWords letters words).mapError .badOption

/-- The one word that a command wants behind its options. -/
def only (command wanted : String) : List String → Except CommandFault String
  | [word] => .ok word
  | _ => .error (.wrongCount command wanted)

/-- The value that an option was last given, or none. -/
def lastValue? (letter : Char) (given : List Given) : Option String :=
  (given.reverse.find? (·.letter = letter)).map (·.value)

def isGiven (letter : Char) (given : List Given) : Bool := given.any (·.letter = letter)

def ofRun (words : List String) : Except CommandFault Invocation := do
  let letters : Letters :=
    [('l', false), ('v', false), ('s', true), ('d', true), ('e', true), ('a', true), ('t', true)]
  let (given, rest) ← options letters words
  let config ← given.foldlM configure .standard
  let file ← only "run" "file" rest
  return .run config (isGiven 'v' given) ((lastValue? 't' given).getD "") file

def ofParse (words : List String) : Except CommandFault Invocation := do
  let (given, rest) ← options [('q', false)] words
  let file ← only "parse" "file" rest
  return .parse (isGiven 'q' given) file

/-- Reads the words behind `repl`. Words behind the file are not looked at. -/
def ofRepl (words : List String) : Except CommandFault Invocation := do
  let (given, rest) ← options [('l', false), ('s', true), ('d', true)] words
  let config ← given.foldlM configure .standard
  return .repl config rest.head?

/-- The number of the run that is asked for, by the last option that says so. -/
def runNumber (id : Nat) (option : Given) : Except CommandFault Nat :=
  if option.letter = 'r' then
    (readUnsigned option.value.toList).mapError (.badNumber 'r' "ParseUint" option.value)
  else .ok id

def ofTrace (words : List String) : Except CommandFault Invocation := do
  let (given, rest) ← options [('s', false), ('r', true)] words
  let id ← given.foldlM runNumber 0
  let archive ← only "trace" "database" rest
  return .trace (isGiven 's' given) id archive

def ofWords : List String → Except CommandFault Invocation
  | [] => .ok .nothing
  | command :: words =>
    match command with
    | "run" => ofRun words
    | "parse" => ofParse words
    | "scan" => (only "scan" "file" words).map .scan
    | "repl" => ofRepl words
    | "trace" => ofTrace words
    | "help" => .ok .help
    | "-h" => .ok .help
    | _ => .error (.unknownCommand command)

end Invocation

/-! ## What comes of it -/

/-- Where a command is carried out: what stands under a path, the input, the file in which lines
    are remembered, and the time. -/
structure Surroundings where
  look : String → Finding
  input : List UInt8
  history : String
  time : String

/-- What comes of a command. -/
structure Report where
  code : Nat
  out : Text
  err : Text
  writes : List (String × Content)

namespace Report

def fine (out : Text) : Report := ⟨0, out, [], []⟩

/-- A command that failed after it had printed something. -/
def fault (out err : Text) (f : CommandFault) : Report :=
  ⟨1, out, err ++ f.message ++ Text.ofString "\n", []⟩

/-- A command that failed at once, or the report of one that did not. -/
def ofExcept : Except CommandFault Report → Report
  | .ok r => r
  | .error f => fault [] [] f

/-- The report with one more file to write. -/
def writing (r : Report) (path : String) (c : Content) : Report :=
  { r with writes := r.writes ++ [(path, c)] }

end Report

namespace Surroundings

def text (s : Surroundings) (path : String) : Except CommandFault Text :=
  ((s.look path).text path).mapError .cannotOpen

/-- The declarations of the program under a path. -/
def declarations (s : Surroundings) (path : String) : Except CommandFault (List Term) := do
  (parseProgram (← s.text path) path).mapError .unreadable

def archive (s : Surroundings) (path : String) : Except CommandFault Archive :=
  match (s.look path).database path with
  | .ok d => .ok (.ofDatabase d)
  | .error f => .error (.cannotOpen f)

end Surroundings

namespace Invocation

/-- Prints what running a program came to, behind what was printed before. -/
def conclude (i : Interpretation) (err : Text) : Report :=
  match i.verdict with
  | .value t => { Report.fine (Text.ofString (t.render ++ "\n")) with err := err }
  | .refused f => .fault [] err (.wrongEntry f)
  | .unfinished => .fault [] err .unfinished
  | .failure .absent => .fault [] err (.failed .absent)
  | .failure (.failed e) => .fault [] (err ++ Text.ofString e.trace) (.failed (.failed e))

def runProgram (config : Config) (verbose : Bool) (p : Program) : Interpretation × Text :=
  let i := (Evaluator.new p config .quiet).interpret
  let told := i.events.map (Event.mapError Failure.message)
  (i, if verbose then Text.ofString (Event.lines false told) else [])

/-- Runs a program and keeps a record of it. -/
def runRecorded (s : Surroundings) (config : Config) (verbose : Bool) (path file : String)
    (declarations : List Term) (p : Program) : Except CommandFault Report := do
  let archive ← s.archive path
  let (recorder, archive) ←
    (archive.begin (Term.digestAll declarations) file s.time).mapError .archive
  let (i, err) := runProgram config verbose p
  let recorder := recorder.addEvents (i.events.map (Event.mapError Failure.message))
  let (finished, _) := recorder.finish archive i.ending
  let (archive, warning) :=
    match finished with
    | .ok archive => (archive, "")
    | .error f => (archive, f.message ++ "\n")
  let err := err ++ Text.ofString (warning ++ s!"run {recorder.run.id} recorded\n")
  return (conclude i err).writing path (.database archive.database)

def executeRun (s : Surroundings) (config : Config) (verbose : Bool) (archive file : String) :
    Except CommandFault Report := do
  let config := if archive.isEmpty then config else config.bounded
  let declarations ← s.declarations file
  let p ← (Program.load config.linear declarations).mapError .refused
  if archive.isEmpty then
    let (i, err) := runProgram config verbose p
    return conclude i err
  else runRecorded s config verbose archive file declarations p

def executeParse (s : Surroundings) (quiet : Bool) (file : String) :
    Except CommandFault Report := do
  let declarations ← s.declarations file
  let p ← (Program.load false declarations).mapError .refused
  let out := if quiet then "" else String.join (declarations.map (·.render ++ "\n"))
  let warnings := String.join
    (p.undeclared.map fun name => s!"warning: {name} has clauses but no signature\n")
  let counts :=
    s!"{p.types.names.length} types, {p.clauses.names.length} functions, " ++
    s!"{p.bindings.names.length} signatures ({Term.digestAll declarations})\n"
  return ⟨0, Text.ofString out, Text.ofString (warnings ++ counts), []⟩

def executeScan (s : Surroundings) (file : String) : Except CommandFault Report := do
  match Token.listing (Token.scan (← s.text file)) with
  | (lines, none) => return .fine lines
  | (lines, some complaint) => return .fault lines [] (.invalidToken complaint)

def startRepl (s : Surroundings) (config : Config) (file : Option String) :
    Except CommandFault Repl := do
  let declarations ← match file with
    | some path => s.declarations path
    | none => .ok []
  let session ← (Session.start config declarations).mapError .refused
  let history := match s.look s.history with
    | .file (.text t) => Repl.readHistory t
    | _ => []
  return ⟨session, history, .quiet⟩

/-- Carries out `repl` on all the input there is. -/
def executeRepl (s : Surroundings) (config : Config) (file : Option String) :
    Except CommandFault Report := do
  let repl ← startRepl s config file
  let (out, err, repl) := repl.turns ((Repl.inputLines s.input).map (·.1))
  let report : Report := ⟨0, Text.ofString out, err, []⟩
  return report.writing s.history (.text (Repl.writeHistory repl.history))

/-- Carries out `trace`. Opening an archive that is not there makes it. -/
def executeTrace (s : Surroundings) (summary : Bool) (id : Nat) (path : String) :
    Except CommandFault Report := do
  let archive ← s.archive path
  let report := match archive.listing false id summary with
    | .ok text => Report.fine (Text.ofString text)
    | .error f => .fault [] [] (.archive f)
  return report.writing path (.database archive.database)

def execute (s : Surroundings) (i : Invocation) : Report :=
  match i with
  | .nothing => ⟨2, [], Text.ofString usage, []⟩
  | .help => .fine (Text.ofString usage)
  | .run config verbose archive file => .ofExcept (executeRun s config verbose archive file)
  | .parse quiet file => .ofExcept (executeParse s quiet file)
  | .scan file => .ofExcept (executeScan s file)
  | .repl config file => .ofExcept (executeRepl s config file)
  | .trace summary id archive => .ofExcept (executeTrace s summary id archive)

/-- The paths that may be looked at or written. -/
def paths (history : String) : Invocation → List String
  | .nothing => []
  | .help => []
  | .run _ _ archive file => [file] ++ (if archive.isEmpty then [] else [archive])
  | .parse _ file => [file]
  | .scan file => [file]
  | .repl _ file => file.toList ++ [history]
  | .trace _ _ archive => [archive]

end Invocation

def runCommand (s : Surroundings) (words : List String) : Report :=
  match Invocation.ofWords words with
  | .ok i => i.execute s
  | .error f => .fault [] [] f

end Clausal
