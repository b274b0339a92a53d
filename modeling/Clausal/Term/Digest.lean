/-
  Clausal.Term.Digest

  Fingerprints of terms: the hash of a term's encoding. A digest is a fingerprint cut to its
  first eight bytes and written in hexadecimal.
-/
import Clausal.Digest.Blake3
import Clausal.Term.Encoding
import Clausal.Text.Quoted

namespace Clausal

/-- Bytes in lower case hexadecimal. -/
def hexText (bytes : List UInt8) : String :=
  String.join (bytes.map fun b => Text.hex 2 b.toNat)

def RawTerm.fingerprint (t : RawTerm) : List UInt8 := Blake3.hash t.encode

/-- What is hashed for the digest of a list of terms: their fingerprints, in order. -/
def RawTerm.encodeDigests (ts : List RawTerm) : List UInt8 := ts.flatMap fingerprint

namespace Term

def fingerprint (t : Term) : List UInt8 := t.raw.fingerprint

/-- The digest of a term, 16 hexadecimal digits. -/
def digest (t : Term) : String := hexText (t.fingerprint.take 8)

/-- The digest of a list of terms, made from their fingerprints in order. -/
def digestAll (ts : List Term) : String :=
  hexText ((Blake3.hash (RawTerm.encodeDigests (ts.map raw))).take 8)

end Term

end Clausal
