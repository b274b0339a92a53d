/-
  Clausal.Proofs.Files

  A database that was written to a file is the one that is found there. Each part of a file says
  where it ends, so a reader that is given a part, with anything behind it, gives what was written
  and what is behind (`Codec.Reads`). This is put together from numbers and texts up to whole
  databases (`Codec.decode_encode`).
-/
import Clausal.Archive.Codec
import Clausal.Proofs.Buckets
import Clausal.Proofs.Encoding

namespace Clausal.Codec

/-- The reader gives a value for its bytes, whatever is behind them. -/
def Reads {α : Type} (read : Reader α) (bytes : List UInt8) (x : α) : Prop :=
  ∀ rest, read (bytes ++ rest) = some (x, rest)

/-! ## Numbers, texts, lists and pairs -/

theorem reads_nat (n : Nat) : Reads readNat (varint n) n := by
  intro rest
  induction n using Nat.strongRecOn with
  | ind n ih =>
    have hsize : UInt8.size = 256 := rfl
    by_cases hlt : n < 128
    · have hbyte : (UInt8.ofNat n).toNat = n := UInt8.toNat_ofNat_of_lt' (by omega)
      have hlast : UInt8.ofNat n < 128 := by
        rw [UInt8.lt_iff_toNat_lt, hbyte]
        exact hlt
      rw [varint_of_lt hlt, List.singleton_append, readNat, if_pos hlast, hbyte]
    · have hbyte : (UInt8.ofNat (n % 128 + 128)).toNat = n % 128 + 128 :=
        UInt8.toNat_ofNat_of_lt' (by omega)
      have hmore : ¬UInt8.ofNat (n % 128 + 128) < 128 := by
        rw [UInt8.lt_iff_toNat_lt, hbyte]
        exact Nat.not_lt.2 (Nat.le_add_left _ _)
      have hparts : n % 128 + 128 - 128 + 128 * (n / 128) = n := by omega
      rw [varint_of_le (Nat.not_lt.1 hlt), List.cons_append, readNat, if_neg hmore,
        ih (n / 128) (by omega), Option.map_some, hbyte]
      exact congrArg (fun n => some (n, rest)) hparts

theorem reads_int (n : Int) : Reads readInt (writeInt n) n := by
  intro rest
  cases n with
  | ofNat n =>
    rw [readInt, writeInt, reads_nat]
    simp
  | negSucc n =>
    have hhalf : (2 * n + 1) / 2 = n := by omega
    rw [readInt, writeInt, reads_nat]
    simp [hhalf]

theorem fromUTF8?_textBytes (s : String) : String.fromUTF8? ⟨(textBytes s).toArray⟩ = some s :=
  dif_pos s.isValidUTF8

theorem reads_text (s : String) : Reads readText (writeText s) s := by
  intro rest
  rw [readText, writeText, encodeBytes, List.append_assoc, reads_nat]
  simp [fromUTF8?_textBytes]

theorem reads_many {α : Type} {read : Reader α} {write : α → List UInt8} {xs : List α}
    (h : ∀ x ∈ xs, Reads read (write x) x) (found : List α) (rest : List UInt8) :
    readMany read xs.length found (xs.flatMap write ++ rest)
      = some (found.reverse ++ xs, rest) := by
  induction xs generalizing found with
  | nil => simp [readMany]
  | cons x xs ih =>
    rw [List.forall_mem_cons] at h
    rw [List.length_cons, readMany, List.flatMap_cons, List.append_assoc, h.1]
    simp [ih h.2]

theorem reads_list {α : Type} {read : Reader α} {write : α → List UInt8} {xs : List α}
    (h : ∀ x ∈ xs, Reads read (write x) x) : Reads (readList read) (writeList write xs) xs := by
  intro rest
  rw [readList, writeList, List.append_assoc, reads_nat]
  exact reads_many h [] rest

theorem reads_pair {α β : Type} {first : Reader α} {second : Reader β} {write : α → List UInt8}
    {write' : β → List UInt8} {pair : α × β} (h : Reads first (write pair.1) pair.1)
    (h' : Reads second (write' pair.2) pair.2) :
    Reads (readPair first second) (writePair write write' pair) pair := by
  intro rest
  rw [readPair, writePair, List.append_assoc, h]
  simp [h' rest]

/-! ## Documents -/

theorem reads_value (v : Document.Value) : Reads readValue (writeValue v) v := by
  intro rest
  cases v with
  | text s => exact congrArg (Option.map _) (reads_text s rest)
  | number n => exact congrArg (Option.map _) (reads_int n rest)
  | texts list => exact congrArg (Option.map _) (reads_list (fun s _ => reads_text s) rest)

theorem reads_document (d : Document) : Reads readDocument (writeDocument d) d := by
  intro rest
  rw [readDocument, writeDocument,
    reads_list (fun entry _ => reads_pair (reads_text entry.1) (reads_value entry.2))]
  rfl

theorem reads_stored {α : Type} [Documented α] (s : Stored α) :
    Reads readStored (writeStored s) s := by
  intro rest
  rw [readStored, writeStored, reads_document]
  exact dif_pos s.readable

/-! ## Databases -/

theorem reads_key (key : List UInt8) : Reads readKey (writeKey key) key :=
  reads_list fun _ _ _ => rfl

/-- The entries of a bucket come in order, so putting them in anew changes nothing. -/
theorem ofEntries_entries {α : Type} (b : Bucket α) : Bucket.ofEntries b.entries = b := by
  have hentries := Bucket.entries_ofEntries b.sorted
  cases hb : Bucket.ofEntries b.entries with
  | mk entries sorted =>
    cases b
    rw [hb] at hentries
    cases hentries
    rfl

theorem reads_bucket {α : Type} {read : Reader α} {write : α → List UInt8}
    (h : ∀ x, Reads read (write x) x) (b : Bucket α) :
    Reads (readBucket read) (writeBucket write b) b := by
  intro rest
  rw [readBucket, writeBucket,
    reads_list (fun entry _ => reads_pair (reads_key entry.1) (h entry.2)), Option.map_some]
  exact congrArg (fun b => some (b, rest)) (ofEntries_entries b)

/-- **A database is found in the file to which it was written.** -/
theorem decode_encode (d : Database) : decode (encode d) = some d := by
  have hmark : mark.isPrefixOf (encode d) = true := List.isPrefixOf_iff_prefix.2 ⟨_, rfl⟩
  have hrest : (encode d).drop mark.length = varint d.issued ++ (writeBucket writeStored d.runs ++
      writeBucket (writeBucket writeStored) d.records) := List.drop_left
  have hrecords := reads_bucket (reads_bucket reads_stored) d.records []
  rw [List.append_nil] at hrecords
  rw [decode, hmark, hrest, reads_nat]
  simp only [Bool.not_true, Bool.false_eq_true, if_false, Option.bind_eq_bind, Option.bind_some,
    reads_bucket reads_stored d.runs _, hrecords]
  rfl

end Clausal.Codec
