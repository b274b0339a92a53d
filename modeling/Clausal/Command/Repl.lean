/-
  Clausal.Command.Repl

  The read-eval-print loop without a terminal: a prompt before each line, what comes of the line,
  and a list of the lines that were given, kept from one loop to the next. Input is taken in
  lines, a line that fills the buffer in pieces.
-/
import Clausal.Session

namespace Clausal

namespace Repl

/-- The size of the input buffer in bytes. -/
def bufferSize : Nat := 4096

/-- The most lines that are remembered. -/
def historyLimit : Nat := 1000

def prompt : String := "husk> "

/-- The first line of some input and the input behind it. Lines end at a line feed, which may
    have a carriage return before it; the last one may lack its end. `whole` is false for a piece
    of a line that is longer than the buffer. -/
structure Taken where
  line : List UInt8
  whole : Bool
  rest : List UInt8

/-- A line without the carriage return at its end. -/
def dropReturn (line : List UInt8) : List UInt8 :=
  if line.getLast? = some 13 then line.dropLast else line

theorem le_length_dropReturn (line : List UInt8) : line.length - 1 ≤ (dropReturn line).length := by
  unfold dropReturn
  split
  · simp
  · omega

/-- Takes a line off some input that is not empty. -/
def takeLine (input : List UInt8) : Taken :=
  let window := input.take bufferSize
  let line := window.takeWhile (· != 10)
  -- The window has a line feed, or the input ends in it, or the line is cut at its end.
  if line.length < window.length then ⟨dropReturn line, true, input.drop (line.length + 1)⟩
  else if window.length < bufferSize then ⟨input, true, []⟩
  else ⟨dropReturn window, false, input.drop (dropReturn window).length⟩

theorem takeLine_rest_lt {input : List UInt8} (h : input ≠ []) :
    (takeLine input).rest.length < input.length := by
  have hpos : 0 < input.length := List.length_pos_iff.2 h
  simp only [takeLine]
  split
  · simp only [List.length_drop]
    omega
  · split
    · simpa using hpos
    · rename_i hfull
      have hkept := le_length_dropReturn (input.take bufferSize)
      have : bufferSize = 4096 := rfl
      simp only [List.length_drop]
      omega

/-- All lines of some input, each with whether it is whole. -/
def inputLines (input : List UInt8) : List (Text × Bool) :=
  if _h : input = [] then []
  else
    let taken := takeLine input
    (Text.ofBytes taken.line, taken.whole) :: inputLines taken.rest
termination_by input.length
decreasing_by exact takeLine_rest_lt _h

/-- Remembers a line, unless it is the same as the one before it. The oldest line is forgotten
    when there are too many. -/
def remember (history : List Text) (line : Text) : List Text :=
  if history.getLast? = some line then history
  else
    let history := history ++ [line]
    if history.length > historyLimit then history.tail else history

/-- The lines remembered in a file. They end at the first that is too long or no valid text. -/
def readHistory (file : Text) : List Text :=
  let lines := (inputLines file.toBytes).takeWhile fun (line, whole) =>
    whole && line.toString?.isSome
  let lines := lines.map (·.1)
  lines.drop (lines.length - historyLimit)

def writeHistory (history : List Text) : Text :=
  history.flatMap fun line => line ++ Text.ofString "\n"

end Repl

/-- A loop under way. -/
structure Repl where
  session : Session
  history : List Text
  signal : Signal

namespace Repl

/-- What one line has the loop print, and whether it is the last one. -/
structure Turn where
  out : String
  err : Text
  done : Bool
  repl : Repl

def turn (r : Repl) (line : Text) : Turn :=
  let reply := r.session.execute false line r.signal
  { out := reply.output
    err := match reply.fault with
      | some fault => fault.message ++ Text.ofString "\n"
      | none => []
    done := reply.done
    repl := ⟨reply.session, remember r.history line, reply.signal⟩ }

/-- Carries out lines up to one that ends the loop. At the end of the lines the prompt still
    stands, and its line is ended. Gives what is printed, what is complained about, and the loop
    after it. -/
def turns (r : Repl) : List Text → String × Text × Repl
  | [] => (prompt ++ "\n", [], r)
  | line :: rest =>
    let t := r.turn line
    if t.done then (prompt ++ t.out, t.err, t.repl)
    else
      let (out, err, r) := t.repl.turns rest
      (prompt ++ t.out ++ out, t.err ++ err, r)

end Repl

end Clausal
