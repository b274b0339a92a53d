/-
  Clausal.Text.Quoted

  Text between double quotes, in a form that shows every character. Printable characters
  stand for themselves, except the quote and the backslash, which get a backslash. What
  cannot be printed is written as an escape: the seven control characters that have a
  letter (`\a \b \f \n \r \t \v`), `\x` and two digits for the other controls and for stray
  bytes, `\u` and four or `\U` and eight digits for the rest.
-/
import Clausal.Text.Piece
import Clausal.Text.Printable

namespace Clausal.Text

/-- The `width` lowest hexadecimal digits of `n`, in lower case. -/
def hex (width n : Nat) : String :=
  String.ofList ((List.range width).reverse.map fun i => Nat.digitChar (n >>> (4 * i) % 16))

/-- The control characters that are escaped by a letter of their own. -/
def escapeLetter? (c : Char) : Option Char :=
  match c.toNat with
  | 0x07 => some 'a'
  | 0x08 => some 'b'
  | 0x0C => some 'f'
  | 0x0A => some 'n'
  | 0x0D => some 'r'
  | 0x09 => some 't'
  | 0x0B => some 'v'
  | _ => none

def quoteChar (c : Char) : String :=
  if c = '"' || c = '\\' then String.ofList ['\\', c]
  else if isPrintable c then String.singleton c
  else match escapeLetter? c with
    | some l => String.ofList ['\\', l]
    | none =>
      if c.toNat < 0x20 || c.toNat = 0x7F then "\\x" ++ hex 2 c.toNat
      else if c.toNat < 0x10000 then "\\u" ++ hex 4 c.toNat
      else "\\U" ++ hex 8 c.toNat

def quotePiece : Piece → String
  | .char c => quoteChar c
  | .stray b => "\\x" ++ hex 2 b.toNat

def quote (t : Text) : String := "\"" ++ String.join (t.map quotePiece) ++ "\""

end Clausal.Text
