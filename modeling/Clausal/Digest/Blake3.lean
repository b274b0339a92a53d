/-
  Clausal.Digest.Blake3

  BLAKE3 in its plain hash mode, with 32 bytes of output. Input is cut into chunks of 1024
  bytes and blocks of 64. A chunk chains its blocks; chunks are joined in a binary tree whose
  left branch holds the largest power of two chunks that leaves something for the right.
  `Node` is the last compression of a chunk or of a branch, kept undone, because the one at
  the root is done with a flag of its own.
-/
namespace Clausal.Blake3

/-! ## Compression -/

def initial : Vector UInt32 8 :=
  #v[0x6A09E667, 0xBB67AE85, 0x3C6EF372, 0xA54FF53A, 0x510E527F, 0x9B05688C, 0x1F83D9AB,
    0x5BE0CD19]

/-- The places from which each round takes the words of the round before. -/
def permutation : Vector (Fin 16) 16 :=
  #v[2, 6, 3, 10, 7, 0, 4, 13, 1, 11, 12, 5, 9, 14, 15, 8]

def chunkStart : UInt32 := 1
def chunkEnd : UInt32 := 2
def parentFlag : UInt32 := 4
def rootFlag : UInt32 := 8

/-- Rotation to the right by `n` bits, `0 < n < 32`. -/
def rotate (w n : UInt32) : UInt32 := (w >>> n) ||| (w <<< (32 - n))

/-- Mixes two message words into four words of the state. -/
def mix (v : Vector UInt32 16) (a b c d : Fin 16) (x y : UInt32) : Vector UInt32 16 :=
  let v := v.set a (v[a] + v[b] + x)
  let v := v.set d (rotate (v[d] ^^^ v[a]) 16)
  let v := v.set c (v[c] + v[d])
  let v := v.set b (rotate (v[b] ^^^ v[c]) 12)
  let v := v.set a (v[a] + v[b] + y)
  let v := v.set d (rotate (v[d] ^^^ v[a]) 8)
  let v := v.set c (v[c] + v[d])
  v.set b (rotate (v[b] ^^^ v[c]) 7)

/-- One round: the columns of the state, then its diagonals. -/
def round (v m : Vector UInt32 16) : Vector UInt32 16 :=
  let v := mix v 0 4 8 12 m[0] m[1]
  let v := mix v 1 5 9 13 m[2] m[3]
  let v := mix v 2 6 10 14 m[4] m[5]
  let v := mix v 3 7 11 15 m[6] m[7]
  let v := mix v 0 5 10 15 m[8] m[9]
  let v := mix v 1 6 11 12 m[10] m[11]
  let v := mix v 2 7 8 13 m[12] m[13]
  mix v 3 4 9 14 m[14] m[15]

/-- The given number of rounds, with the message permuted after each. -/
def rounds : Nat → Vector UInt32 16 → Vector UInt32 16 → Vector UInt32 16
  | 0, v, _ => v
  | n + 1, v, m => rounds n (round v m) (permutation.map fun i => m[i])

/-- A compression with its inputs: chaining value, message block, chunk number, how many
    bytes of the block are used, and flags. -/
structure Node where
  chain : Vector UInt32 8
  block : Vector UInt32 16
  counter : Nat
  length : Nat
  flags : UInt32

/-- The eight words a compression puts out. -/
def Node.words (n : Node) : Vector UInt32 8 :=
  let h := n.chain
  let start : Vector UInt32 16 :=
    #v[h[0], h[1], h[2], h[3], h[4], h[5], h[6], h[7],
      initial[0], initial[1], initial[2], initial[3],
      UInt32.ofNat n.counter, UInt32.ofNat (n.counter >>> 32), UInt32.ofNat n.length, n.flags]
  let v := rounds 7 start n.block
  Vector.ofFn fun i : Fin 8 => v[i.val] ^^^ v[i.val + 8]

/-! ## Chunks and the tree -/

/-- Four bytes from place `i` on, lowest first; bytes past the end are zero. -/
def wordAt (bytes : Array UInt8) (i : Nat) : UInt32 :=
  let byte (k : Nat) : UInt32 := ((bytes[i + k]?).getD 0).toUInt32
  byte 0 ||| (byte 1 <<< 8) ||| (byte 2 <<< 16) ||| (byte 3 <<< 24)

/-- The words of a block of at most 64 bytes. -/
def blockWords (bytes : List UInt8) : Vector UInt32 16 :=
  let bytes := bytes.toArray
  Vector.ofFn fun i : Fin 16 => wordAt bytes (4 * i.val)

/-- The rest of a chunk from one of its blocks on. `flags` is set on that block only. -/
def chunkFrom (chain : Vector UInt32 8) (counter : Nat) (flags : UInt32) (bytes : List UInt8) :
    Node :=
  if bytes.length ≤ 64 then
    ⟨chain, blockWords bytes, counter, bytes.length, flags ||| chunkEnd⟩
  else
    let node : Node := ⟨chain, blockWords (bytes.take 64), counter, 64, flags⟩
    chunkFrom node.words counter 0 (bytes.drop 64)
termination_by bytes.length
decreasing_by simp; omega

/-- A chunk of at most 1024 bytes. -/
def chunk (counter : Nat) (bytes : List UInt8) : Node :=
  chunkFrom initial counter chunkStart bytes

/-- A branch of the tree over the outputs of its two sides. -/
def parent (left right : Node) : Node :=
  ⟨initial, left.words ++ right.words, 0, 64, parentFlag⟩

/-- How many of `n` bytes go to the left branch, for `n` over one chunk. -/
def leftSize (n : Nat) : Nat := 1024 <<< ((n - 1) / 1024).log2

theorem leftSize_lt {n : Nat} (h : 1024 < n) : leftSize n < n := by
  have hm : (n - 1) / 1024 ≠ 0 := by omega
  have := Nat.log2_self_le hm
  rw [leftSize, Nat.shiftLeft_eq]
  omega

theorem leftSize_pos (n : Nat) : 0 < leftSize n := by
  rw [leftSize, Nat.shiftLeft_eq]
  exact Nat.mul_pos (by decide) (Nat.pow_pos (by decide))

/-- The tree over bytes whose first chunk has the given number. -/
def tree (counter : Nat) (bytes : List UInt8) : Node :=
  if h : bytes.length ≤ 1024 then chunk counter bytes
  else
    let k := leftSize bytes.length
    parent (tree counter (bytes.take k)) (tree (counter + k / 1024) (bytes.drop k))
termination_by bytes.length
decreasing_by
  · have := leftSize_lt (Nat.lt_of_not_le h)
    simp only [List.length_take]
    omega
  · have := leftSize_pos bytes.length
    simp only [List.length_drop]
    omega

/-- The bytes of a word, lowest first. -/
def wordBytes (w : UInt32) : List UInt8 :=
  [w.toUInt8, (w >>> 8).toUInt8, (w >>> 16).toUInt8, (w >>> 24).toUInt8]

/-- The hash of some bytes: 32 bytes. -/
def hash (bytes : List UInt8) : List UInt8 :=
  let node := tree 0 bytes
  ({ node with flags := node.flags ||| rootFlag }).words.toList.flatMap wordBytes

end Clausal.Blake3
