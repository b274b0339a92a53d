/-
  Clausal.Archive.Listing

  An archive as it is shown: the list of its runs, or one run's records or their summary. Run
  number zero stands for no run; a summary of it is that of the last run.
-/
import Clausal.Archive.Basic
import Clausal.Archive.Summary

namespace Clausal

/-- The line that tells of a run. A run that failed shows its error, any other its value. -/
def Run.line (colour : Bool) (r : Run) : String :=
  let outcome := if r.error.isEmpty then r.value else Colour.red.paint colour r.error
  flushRight 4 (toString r.id) ++ "  " ++ r.begun ++ "  " ++ r.program ++ "  " ++ r.label ++ "  "
    ++ flushRight 6 (toString r.steps) ++ "  " ++ outcome ++ "\n"

namespace Archive

/-- One run, by its records or by their summary. -/
def showRun (a : Archive) (colour summary : Bool) (id : Nat) : Except Fault String := do
  let records ← a.records id
  return if summary then (Summary.ofRecords records).describe else Record.lines colour records

/-- What is shown when run `id` is asked for. -/
def listing (a : Archive) (colour : Bool) (id : Nat) (summary : Bool) : Except Fault String :=
  if id = 0 then
    if summary then do
      let r ← a.last
      a.showRun colour summary r.id
    else do
      let runs ← a.runs
      return String.join (runs.map (Run.line colour))
  else a.showRun colour summary id

end Archive

end Clausal
