/-
  Clausal.Text.Blank

  White space in the sense of Unicode, and the two operations on whole texts that rest on
  it: `trim` takes it off both ends, `firstWord` stops where the first of it stands.
-/
import Clausal.Text.Piece

namespace Clausal

def Text.isWhite (c : Char) : Bool :=
  let n := c.toNat
  (0x09 ≤ n && n ≤ 0x0D) || n == 0x20 || n == 0x85 || n == 0xA0 || n == 0x1680
    || (0x2000 ≤ n && n ≤ 0x200A) || n == 0x2028 || n == 0x2029 || n == 0x202F
    || n == 0x205F || n == 0x3000

/-- Whether a piece is white space. A stray byte is not. -/
def Piece.isWhite (p : Piece) : Bool := Text.isWhite p.rune

namespace Text

/-- The text without the white space at its two ends. -/
def trim (t : Text) : Text :=
  ((t.dropWhile Piece.isWhite).reverse.dropWhile Piece.isWhite).reverse

/-- The text up to its first white space. -/
def firstWord (t : Text) : Text := t.takeWhile (fun p => !p.isWhite)

end Text

end Clausal
