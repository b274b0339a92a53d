/-
  Clausal.Text.Piece

  Source text as it arrives from a file or a terminal: bytes that are UTF-8 almost
  everywhere. `Text.ofBytes` reads them into pieces, one for each character and one for
  each byte that starts no character. Nothing is thrown away: every piece knows the bytes
  it stands for, so the pieces of a text spell the text again.
-/
namespace Clausal

/-- One unit of source text: a character, or a byte that begins no UTF-8 sequence. -/
inductive Piece where
  | char (c : Char)
  | stray (b : UInt8)
  deriving DecidableEq, Repr, Inhabited

/-- Text that may hold stray bytes. -/
abbrev Text := List Piece

namespace Piece

/-- The character a piece is shown and classified as; a stray byte is U+FFFD. -/
def rune : Piece → Char
  | .char c => c
  | .stray _ => '\uFFFD'

def bytes : Piece → List UInt8
  | .char c => String.utf8EncodeChar c
  | .stray b => [b]

/-- How many bytes a piece was read from. -/
def width : Piece → Nat
  | .char c => c.utf8Size
  | .stray _ => 1

/-- Whether a piece is the character `c`. A stray byte is no character at all. -/
def is (c : Char) : Piece → Bool
  | .char d => d == c
  | .stray _ => false

/-- A stray byte becomes the character it is shown as. -/
def settle (p : Piece) : Piece := .char p.rune

end Piece

namespace Text

/-! ## Reading bytes -/

/-- Folds `k` continuation bytes into `n`, six bits each. -/
def trailing : Nat → Nat → List UInt8 → Option Nat
  | 0, n, _ => some n
  | k + 1, n, b :: rest =>
    if 0x80 ≤ b && b < 0xC0 then trailing k (n * 64 + (b.toNat - 0x80)) rest else none
  | _ + 1, _, [] => none

/-- The character numbered `n`, provided its shortest encoding is the one that starts at
    `least`. -/
def scalar? (least n : Nat) : Option Char :=
  if h : n.isValidChar then
    if least ≤ n then some (Char.ofNatAux n h) else none
  else none

/-- The character whose UTF-8 encoding the bytes begin with, if there is one. -/
def charAt? : List UInt8 → Option Char
  | [] => none
  | a :: rest =>
    if a < 0x80 then some (Char.ofNat a.toNat)
    else if a < 0xC0 then none
    else if a < 0xE0 then (trailing 1 (a.toNat - 0xC0) rest).bind (scalar? 0x80)
    else if a < 0xF0 then (trailing 2 (a.toNat - 0xE0) rest).bind (scalar? 0x800)
    else if a < 0xF8 then (trailing 3 (a.toNat - 0xF0) rest).bind (scalar? 0x10000)
    else none

/-- Reads bytes, the first `skip` of which belong to a character already read. -/
def decodeFrom : Nat → List UInt8 → Text
  | _, [] => []
  | skip + 1, _ :: rest => decodeFrom skip rest
  | 0, b :: rest =>
    match charAt? (b :: rest) with
    | some c => .char c :: decodeFrom (c.utf8Size - 1) rest
    | none => .stray b :: decodeFrom 0 rest

/-- Reads bytes as text. A byte that begins no character is a piece of its own. -/
def ofBytes (bytes : List UInt8) : Text := decodeFrom 0 bytes

def ofString (s : String) : Text := s.toList.map .char

/-! ## Writing text -/

def toBytes (t : Text) : List UInt8 := t.flatMap Piece.bytes

def size (t : Text) : Nat := t.foldl (fun n p => n + p.width) 0

/-- The text as a string, each stray byte shown as U+FFFD. -/
def toString (t : Text) : String := String.ofList (t.map Piece.rune)

/-- The text as a string, if no stray byte is in it. -/
def toString? (t : Text) : Option String :=
  if t.all (fun | .char _ => true | .stray _ => false) then some t.toString else none

/-- The text without a byte order mark at its start. -/
def dropMark : Text → Text
  | .char c :: rest => if c = '\uFEFF' then rest else .char c :: rest
  | t => t

end Text

end Clausal
