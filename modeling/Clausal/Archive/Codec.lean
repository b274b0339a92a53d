/-
  Clausal.Archive.Codec

  A database as the bytes of a file. Numbers are written in groups of seven bits, texts and lists
  with their length first, so each part says where it ends; a reader gives what it read and the
  bytes behind it. The file opens with a mark that begins with a zero byte, by which it is told
  from a text.
-/
import Clausal.Archive.Basic
import Clausal.Term.Encoding

namespace Clausal.Codec

/-- Reads a value off the front of some bytes. -/
abbrev Reader (α : Type) := List UInt8 → Option (α × List UInt8)

/-! ## Numbers, texts, lists and pairs -/

def readNat : Reader Nat
  | [] => none
  | b :: rest =>
    if b < 128 then some (b.toNat, rest)
    else (readNat rest).map fun (n, rest) => (b.toNat - 128 + 128 * n, rest)

/-- The bytes of a number that may be negative: the lowest bit says so. -/
def writeInt : Int → List UInt8
  | .ofNat n => varint (2 * n)
  | .negSucc n => varint (2 * n + 1)

def readInt : Reader Int := fun bytes => do
  let (n, rest) ← readNat bytes
  return (if n % 2 = 0 then .ofNat (n / 2) else .negSucc (n / 2), rest)

def writeText (s : String) : List UInt8 := encodeBytes (textBytes s)

def readText : Reader String := fun bytes => do
  let (size, rest) ← readNat bytes
  let body := rest.take size
  if body.length < size then none
  else
    let s ← String.fromUTF8? ⟨body.toArray⟩
    return (s, rest.drop size)

def writeList {α : Type} (write : α → List UInt8) (xs : List α) : List UInt8 :=
  varint xs.length ++ xs.flatMap write

/-- Reads the given number of values. `found` holds those read before, the latest first. -/
def readMany {α : Type} (read : Reader α) : Nat → List α → Reader (List α)
  | 0, found, bytes => some (found.reverse, bytes)
  | n + 1, found, bytes =>
    match read bytes with
    | none => none
    | some (x, rest) => readMany read n (x :: found) rest

def readList {α : Type} (read : Reader α) : Reader (List α) := fun bytes => do
  let (n, rest) ← readNat bytes
  readMany read n [] rest

def writePair {α β : Type} (first : α → List UInt8) (second : β → List UInt8) (pair : α × β) :
    List UInt8 :=
  first pair.1 ++ second pair.2

def readPair {α β : Type} (first : Reader α) (second : Reader β) : Reader (α × β) :=
  fun bytes => do
    let (x, bytes) ← first bytes
    let (y, bytes) ← second bytes
    return ((x, y), bytes)

/-! ## Documents -/

def writeValue : Document.Value → List UInt8
  | .text s => 0 :: writeText s
  | .number n => 1 :: writeInt n
  | .texts list => 2 :: writeList writeText list

def readValue : Reader Document.Value
  | 0 :: bytes => (readText bytes).map fun (s, rest) => (.text s, rest)
  | 1 :: bytes => (readInt bytes).map fun (n, rest) => (.number n, rest)
  | 2 :: bytes => (readList readText bytes).map fun (list, rest) => (.texts list, rest)
  | _ => none

def writeDocument (d : Document) : List UInt8 := writeList (writePair writeText writeValue) d.entries

def readDocument : Reader Document := fun bytes =>
  (readList (readPair readText readValue) bytes).map fun (entries, rest) => (⟨entries⟩, rest)

def writeStored {α : Type} [Documented α] (s : Stored α) : List UInt8 := writeDocument s.document

/-- Reads a document, provided that a value can be read from it in turn. -/
def readStored {α : Type} [Documented α] : Reader (Stored α) := fun bytes => do
  let (d, bytes) ← readDocument bytes
  if h : (Documented.decode? d : Option α).isSome then return (⟨d, h⟩, bytes) else none

/-! ## Databases -/

def writeKey : List UInt8 → List UInt8 := writeList ([·])

def readByte : Reader UInt8
  | [] => none
  | b :: rest => some (b, rest)

def readKey : Reader (List UInt8) := readList readByte

def writeBucket {α : Type} (write : α → List UInt8) (b : Bucket α) : List UInt8 :=
  writeList (writePair writeKey write) b.entries

def readBucket {α : Type} (read : Reader α) : Reader (Bucket α) := fun bytes =>
  (readList (readPair readKey read) bytes).map fun (entries, rest) => (.ofEntries entries, rest)

/-- What a file with a database opens with. -/
def mark : List UInt8 := [0, 104, 117, 115, 107]

def encode (d : Database) : List UInt8 :=
  mark ++ (varint d.issued ++ (writeBucket writeStored d.runs ++
    writeBucket (writeBucket writeStored) d.records))

/-- The database in a file, if there is one. -/
def decode (bytes : List UInt8) : Option Database := do
  if !mark.isPrefixOf bytes then none
  else
    let (issued, bytes) ← readNat (bytes.drop mark.length)
    let (runs, bytes) ← readBucket readStored bytes
    let (records, bytes) ← readBucket (readBucket readStored) bytes
    if bytes.isEmpty then return ⟨issued, runs, records⟩ else none

end Clausal.Codec
