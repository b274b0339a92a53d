/-
  Clausal.Text.Colour

  Words in colour, for a terminal that shows it.
-/
namespace Clausal

/-- The colours in use. -/
inductive Colour where
  | red
  | green
  | blue
  | cyan
  deriving DecidableEq, Repr

/-- The number by which a terminal knows a colour. -/
def Colour.number : Colour → Nat
  | .red => 31
  | .green => 32
  | .blue => 34
  | .cyan => 36

/-- A word in a colour, or plain where colour is off. -/
def Colour.paint (colour : Colour) (on : Bool) (word : String) : String :=
  if on then s!"\x1b[{colour.number}m" ++ word ++ "\x1b[0m" else word

end Clausal
