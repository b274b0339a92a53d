/-
  Clausal.Command.Number

  Decimal numbers of 64 bits, as they are given on a command line. A number is read from left to
  right; it is out of range as soon as the digits read so far need more than 64 bits, whatever
  stands behind them.
-/
import Clausal.Text.Quoted

namespace Clausal

/-- Why a text is no number. -/
inductive NumberFault where
  | malformed
  | outOfRange
  deriving DecidableEq, Repr

def NumberFault.message : NumberFault → String
  | .malformed => "invalid syntax"
  | .outOfRange => "value out of range"

/-- How many numbers 64 bits can tell apart. -/
def wordCount : Nat := 0x10000000000000000

/-- How many of them have no sign when one bit is kept for it. -/
def halfCount : Nat := 0x8000000000000000

/-- Reads digits behind those that made `n`. -/
def digitsFrom (n : Nat) : List Char → Except NumberFault Nat
  | [] => .ok n
  | c :: rest =>
    if c.isDigit then
      let n := n * 10 + (c.toNat - '0'.toNat)
      if n < wordCount then digitsFrom n rest else .error .outOfRange
    else .error .malformed

def readUnsigned (cs : List Char) : Except NumberFault Nat :=
  if cs.isEmpty then .error .malformed else digitsFrom 0 cs

/-- Reads a number that may have a sign. -/
def readSigned (cs : List Char) : Except NumberFault Int := do
  let positive (cs : List Char) : Except NumberFault Int := do
    let n ← readUnsigned cs
    if n < halfCount then return Int.ofNat n else .error .outOfRange
  match cs with
  | '+' :: rest => positive rest
  | '-' :: rest =>
    let n ← readUnsigned rest
    if n ≤ halfCount then return Int.negOfNat n else .error .outOfRange
  | _ => positive cs

/-- The complaint about a text that is no number. `reader` names what was asked for. -/
def NumberFault.complaint (f : NumberFault) (reader text : String) : String :=
  "strconv." ++ reader ++ ": parsing " ++ (Text.ofString text).quote ++ ": " ++ f.message

end Clausal
