/-
  Clausal.Main

  The program. It finds what stands under the paths that a command line names, has the command
  carried out, and prints and writes what comes of it. Only `repl` goes its own way: it answers
  each line as it comes.
-/
import Clausal.Archive.Codec
import Clausal.Command.Basic
import Std.Time.DateTime

namespace Clausal.Outside

/-! ## Files -/

def contentOf (bytes : List UInt8) : Content :=
  match Codec.decode bytes with
  | some d => .database d
  | none => .text (Text.ofBytes bytes)

/-- The bytes of a file that holds something. -/
def bytesOf : Content → ByteArray
  | .text t => ⟨t.toBytes.toArray⟩
  | .database d => ⟨(Codec.encode d).toArray⟩

/-- The operating system's number for reading a folder as a file. -/
def folderCode : UInt32 := 21

/-- Whether a path is that of a folder. -/
def isFolder (path : String) : IO Bool := do
  try
    discard <| IO.FS.readBinFile path
    return false
  catch
    | .inappropriateType _ code _ => return code == folderCode
    | _ => return false

/-- The most bytes that a path can have. -/
def pathLimit : Nat := 4095

/-- The most bytes that a name can have. -/
def nameLimit : Nat := 255

/-- A path without its last name. -/
def parentOf (path : String) : String :=
  let names := (path.splitOn "/").dropLast
  if names.isEmpty then "." else joinWith "/" names ++ "/"

def look (path : String) : IO Finding := do
  if path.isEmpty then return .blocked .missing
  let bare := (path.dropEndWhile (· == '/')).toString
  let bare := if bare.isEmpty then "/" else bare
  try
    let bytes ← IO.FS.readBinFile bare
    return .file (contentOf bytes.toList)
  catch
    | .inappropriateType _ code _ =>
      return if code == folderCode then .folder else .blocked .notFolder
    | .noFileOrDirectory .. =>
      return if ← isFolder (parentOf bare) then .free else .blocked .missing
    | e =>
      let last := ((bare.splitOn "/").getLast?).getD ""
      if last.utf8ByteSize > nameLimit then return .longName
      else if bare.utf8ByteSize > pathLimit then return .blocked .longName
      else throw e

def write (path : String) (c : Content) : IO Unit := IO.FS.writeBinFile path (bytesOf c)

def historyPath : IO String := do
  match ← IO.getEnv "HOME" with
  | some home => return if home.isEmpty then ".husk_history" else home ++ "/.husk_history"
  | none => return ".husk_history"

/-! ## Printing and the time -/

def print (stream : IO.FS.Stream) (t : Text) : IO Unit := do
  stream.write ⟨t.toBytes.toArray⟩
  stream.flush

def twoDigits (n : Nat) : String := if n < 10 then s!"0{n}" else toString n

def now : IO String := do
  let t := Std.Time.DateTime.ofTimestampWithZone (← Std.Time.Timestamp.now) .UTC
  let date := joinWith "-" (toString t.year.toInt :: [t.month.val, t.day.val].map (twoDigits ·.toNat))
  let time := joinWith ":" ([t.hour.val, t.minute.val, t.second.val].map (twoDigits ·.toNat))
  return date ++ " " ++ time

/-! ## The loop -/

/-- Answers lines as they come. `pending` holds what was read and not yet answered. -/
partial def answer (input output errors : IO.FS.Stream) (repl : Repl) (pending : List UInt8)
    (ended : Bool) : IO Repl := do
  let window := pending.take Repl.bufferSize
  if window.length < Repl.bufferSize && !window.contains 10 && !ended then
    let more ← input.read 4096
    answer input output errors repl (pending ++ more.toList) (more.size == 0)
  else if pending.isEmpty then
    print output (Text.ofString "\n")
    return repl
  else
    let taken := Repl.takeLine pending
    let turn := repl.turn (Text.ofBytes taken.line)
    print output (Text.ofString turn.out)
    print errors turn.err
    if turn.done then return turn.repl
    print output (Text.ofString Repl.prompt)
    answer input output errors turn.repl taken.rest ended

def runRepl (surroundings : Surroundings) (config : Config) (file : Option String) :
    IO UInt32 := do
  let output ← IO.getStdout
  let errors ← IO.getStderr
  match Invocation.startRepl surroundings config file with
  | .error f =>
    print errors (f.message ++ Text.ofString "\n")
    return 1
  | .ok repl =>
    print output (Text.ofString Repl.prompt)
    let repl ← answer (← IO.getStdin) output errors repl [] false
    try write surroundings.history (.text (Repl.writeHistory repl.history))
    catch _ => pure ()
    return 0

/-- Prints and writes what came of a command. -/
def deliver (r : Report) : IO UInt32 := do
  for (path, c) in r.writes do
    write path c
  print (← IO.getStdout) r.out
  print (← IO.getStderr) r.err
  return UInt32.ofNat r.code

def run (i : Invocation) : IO UInt32 := do
  let history ← historyPath
  let found ← (i.paths history).mapM fun path => return (path, ← look path)
  let surroundings : Surroundings :=
    ⟨fun path => (found.lookup path).getD (.blocked .missing), [], history, ← now⟩
  match i with
  | .repl config file => runRepl surroundings config file
  | _ => deliver (i.execute surroundings)

end Clausal.Outside

def main (words : List String) : IO UInt32 :=
  match Clausal.Invocation.ofWords words with
  | .ok i => Clausal.Outside.run i
  | .error f => Clausal.Outside.deliver (.fault [] [] f)
