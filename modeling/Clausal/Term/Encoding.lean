/-
  Clausal.Term.Encoding

  The bytes that stand for a term when it is fingerprinted. Each node opens with a tag of its
  own; names and sequences say their length before their content, so where one term ends and
  the next begins is never in doubt. A hole has no bytes.

  It is raw terms that are encoded, a name being any bytes; a term has the bytes of its raw term.
-/
import Clausal.Term.Raw

namespace Clausal

/-- A number in groups of seven bits, the lowest first; every byte but the last has its top
    bit set. -/
def varint (n : Nat) : List UInt8 :=
  if n < 128 then [UInt8.ofNat n] else UInt8.ofNat (n % 128 + 128) :: varint (n / 128)
termination_by n

namespace Term

def Sequence.tag : Sequence → UInt8
  | .application => 3
  | .arrow => 4
  | .entity => 5

def Relation.tag : Relation → UInt8
  | .typing => 6
  | .equation => 7
  | .clause => 8

end Term

/-- Some bytes with their number first. -/
def encodeBytes (bytes : List UInt8) : List UInt8 := varint bytes.length ++ bytes

namespace RawTerm

mutual

/-- The bytes of a term. A builtin signature is tagged in front of the signature it wraps. -/
def encode : RawTerm → List UInt8
  | .ident n => 1 :: encodeBytes n
  | .group t => 2 :: t.encode
  | .seq k xs => k.tag :: (varint xs.length ++ encodeAll xs)
  | .rel k a b => k.tag :: (a.encode ++ b.encode)
  | .builtin a b => 9 :: Term.Relation.typing.tag :: (a.encode ++ b.encode)
  | .marker => [10]
  | .builtinMarker => [11]
  | .hole => []

/-- The bytes of some terms, one after the other. -/
def encodeAll : List RawTerm → List UInt8
  | [] => []
  | t :: ts => t.encode ++ encodeAll ts

end

@[simp] theorem encodeAll_eq_flatMap (ts : List RawTerm) : encodeAll ts = ts.flatMap encode := by
  induction ts with
  | nil => rfl
  | cons t ts ih => simp [encodeAll, ih]

end RawTerm

/-- The bytes of a term. -/
def Term.encode (t : Term) : List UInt8 := t.raw.encode

end Clausal
