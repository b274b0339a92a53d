/-
  Clausal.Text.Ranges

  Character classes given as tables of code point ranges. A table lists its ranges in
  increasing order, so the search stops at the first range that lies above the number.
-/
namespace Clausal.Text

/-- A table of ranges of code points, both ends included, in increasing order. -/
abbrev Ranges := List (Nat × Nat)

def Ranges.covers : Ranges → Nat → Bool
  | [], _ => false
  | (first, last) :: rest, n => first ≤ n && (n ≤ last || covers rest n)

end Clausal.Text
