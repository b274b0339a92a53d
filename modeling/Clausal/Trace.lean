/-
  Clausal.Trace

  The trace as it is printed while a program runs: a line for each event, indented by its depth.
-/
import Clausal.Machine.Event
import Clausal.Text.Colour

namespace Clausal.Event

/-- The line that tells of an event whose failure, if any, is told by a text. -/
def line (colour : Bool) : Event String → String
  | .enter depth name args =>
    indent depth ++ Colour.cyan.paint colour "call" ++ " " ++ name ++ " ("
      ++ joinWith ", " (args.map Term.render) ++ ")\n"
  | .leave depth _ (.ok result) =>
    indent depth ++ Colour.green.paint colour "return" ++ " " ++ result.shown ++ "\n"
  | .leave depth name (.error text) =>
    indent depth ++ Colour.red.paint colour "fail" ++ " " ++ name ++ ": " ++ text ++ "\n"

def lines (colour : Bool) (events : List (Event String)) : String :=
  String.join (events.map (line colour))

end Clausal.Event
