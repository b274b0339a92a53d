/-
  Clausal.Proofs.Buckets

  Keys in order. Numbers written with their highest byte first compare as the numbers do
  (`bigEndian_lt_iff`), so a bucket whose keys are numbers is gone through in the order of the
  numbers. What is found under a key is exactly what stands there (`Bucket.get?_eq_some_iff`), and a
  list that is kept under the numbers of its places is read back as it was
  (`Bucket.values_numbered`).
-/
import Clausal.Archive.Bucket
import Mathlib.Data.List.Basic
import Mathlib.Data.Nat.ModEq

namespace Clausal

/-! ## Numbers as keys -/

/-- A number in front of a remainder decides, unless it is the same. -/
theorem mul_add_lt_mul_add_iff {base a b r s : Nat} (hr : r < base) (hs : s < base) :
    base * a + r < base * b + s ↔ a < b ∨ a = b ∧ r < s := by
  rcases Nat.lt_trichotomy a b with hab | rfl | hab
  · have hmul : base * (a + 1) ≤ base * b := Nat.mul_le_mul_left base hab
    rw [Nat.mul_add, Nat.mul_one] at hmul
    constructor
    · exact fun _ => .inl hab
    · intro _
      omega
  · constructor
    · intro h
      exact .inr ⟨rfl, by omega⟩
    · rintro (h | ⟨-, h⟩)
      · exact absurd h (Nat.lt_irrefl a)
      · omega
  · have hmul : base * (b + 1) ≤ base * a := Nat.mul_le_mul_left base hab
    rw [Nat.mul_add, Nat.mul_one] at hmul
    constructor
    · intro h
      omega
    · rintro (h | ⟨h, -⟩)
      · omega
      · omega

/-- Byte by byte from the front, numbers compare as they are. -/
theorem bigEndian_lt_iff (count m n : Nat) :
    bigEndian count m < bigEndian count n ↔ m % 256 ^ count < n % 256 ^ count := by
  induction count with
  | zero => simp [bigEndian, Nat.mod_one]
  | succ count ih =>
    have hpos : 0 < 256 ^ count := Nat.pow_pos (by decide)
    -- The first byte is the number in front, the others are the remainder.
    have hsplit : ∀ k : Nat, k % 256 ^ (count + 1)
        = 256 ^ count * (k / 256 ^ count % 256) + k % 256 ^ count := by
      intro k
      rw [Nat.pow_succ, Nat.mod_mul, Nat.add_comm]
    have hbyte : ∀ k : Nat, (UInt8.ofNat (k >>> (8 * count))).toNat = k / 256 ^ count % 256 := by
      intro k
      rw [UInt8.toNat_ofNat', Nat.shiftRight_eq_div_pow, Nat.pow_mul]
    rw [bigEndian, bigEndian, List.cons_lt_cons_iff, hsplit m, hsplit n,
      mul_add_lt_mul_add_iff (Nat.mod_lt m hpos) (Nat.mod_lt n hpos), ih, UInt8.lt_iff_toNat_lt,
      ← UInt8.toNat_inj, hbyte, hbyte]

/-- Numbers with the same bytes are the same, as far as these bytes go. -/
theorem bigEndian_inj {count m n : Nat} (hm : m < 256 ^ count) (hn : n < 256 ^ count)
    (h : bigEndian count m = bigEndian count n) : m = n := by
  have hlt := bigEndian_lt_iff count m n
  have hgt := bigEndian_lt_iff count n m
  rw [h, Nat.mod_eq_of_lt hm, Nat.mod_eq_of_lt hn] at hlt hgt
  have hirrefl := List.lt_irrefl (bigEndian count n)
  have hle : ¬ m < n := fun hmn => hirrefl (hlt.2 hmn)
  have hge : ¬ n < m := fun hnm => hirrefl (hgt.2 hnm)
  omega

/-- Eight bytes are enough for a number of 64 bits. -/
theorem bytes_of_key : 256 ^ 8 = UInt64.size := by decide

/-! ## Buckets -/

namespace Bucket

variable {α : Type}

/-- A key finds exactly what stands under it. -/
theorem get?_eq_some_iff {b : Bucket α} {key : List UInt8} {value : α} :
    b.get? key = some value ↔ (key, value) ∈ b.entries := by
  obtain ⟨entries, hsorted⟩ := b
  show entries.lookup key = some value ↔ (key, value) ∈ entries
  induction hsorted with
  | nil => simp
  | @cons first rest hfirst _ ih =>
    rw [List.lookup_cons, List.mem_cons]
    by_cases h : key = first.1
    · -- No other entry has this key, since they all come later.
      have habsent : (key, value) ∉ rest := by
        intro hmem
        have hlt := hfirst _ hmem
        rw [← h] at hlt
        exact List.lt_irrefl key hlt
      simp [h, h ▸ habsent, Prod.ext_iff, eq_comm]
    · simp [beq_false_of_ne h, ih, Prod.ext_iff, h]

theorem mem_values_iff {b : Bucket α} {value : α} :
    value ∈ b.values ↔ ∃ key, b.get? key = some value := by
  rw [values, List.mem_map]
  constructor
  · rintro ⟨⟨key, v⟩, hmem, rfl⟩
    exact ⟨key, get?_eq_some_iff.2 hmem⟩
  · rintro ⟨key, hkey⟩
    exact ⟨(key, value), get?_eq_some_iff.1 hkey, rfl⟩

theorem last?_eq (b : Bucket α) : b.last? = b.values.getLast? := by
  rw [last?, values, List.getLast?_map]

/-- What comes in the order of its keys is kept as it comes. -/
theorem entries_ofEntries {entries : List (List UInt8 × α)}
    (h : entries.Pairwise fun a b => a.1 < b.1) : (ofEntries entries).entries = entries := by
  induction h with
  | nil => rfl
  | @cons first rest hfirst _ ih =>
    show putEntry first.1 first.2 (ofEntries rest).entries = first :: rest
    rw [ih]
    cases rest with
    | nil => rfl
    | cons next others => rw [putEntry, if_pos (hfirst next List.mem_cons_self)]

/-- A list is read back in order, as long as there are keys enough. -/
theorem values_numbered {xs : List α} (h : xs.length ≤ UInt64.size) :
    (numbered xs).values = xs := by
  have hsorted : (xs.zipIdx.map fun entry => (bigEndian 8 entry.2, entry.1)).Pairwise
      fun a b => a.1 < b.1 := by
    rw [List.pairwise_map, List.pairwise_iff_getElem]
    intro i j hi hj hij
    rw [List.length_zipIdx] at hi hj
    -- Places are numbers of 64 bits, so their bytes compare as they do.
    simp only [List.getElem_zipIdx, Nat.zero_add, bigEndian_lt_iff, bytes_of_key]
    rw [Nat.mod_eq_of_lt (by omega), Nat.mod_eq_of_lt (by omega)]
    exact hij
  rw [values, numbered, entries_ofEntries hsorted, List.map_map]
  exact List.zipIdx_map_fst 0 xs

end Bucket

/-- The last of some things in rising order is the one that none exceeds. -/
theorem getLast?_eq_some_iff_of_pairwise {α : Type} {f : α → Nat} {xs : List α}
    (h : xs.Pairwise fun x y => f x < f y) {x : α} :
    xs.getLast? = some x ↔ x ∈ xs ∧ ∀ y ∈ xs, f y ≤ f x := by
  rcases List.eq_nil_or_concat xs with rfl | ⟨init, last, rfl⟩
  · simp
  · rw [List.concat_eq_append, List.pairwise_append] at h
    obtain ⟨-, -, hlast⟩ := h
    have hbelow : ∀ y ∈ init, f y < f last := fun y hy => hlast y hy last (by simp)
    rw [List.concat_eq_append, List.getLast?_concat, Option.some_inj]
    constructor
    · rintro rfl
      refine ⟨by simp, fun y hy => ?_⟩
      rcases List.mem_append.1 hy with hy | hy
      · exact Nat.le_of_lt (hbelow y hy)
      · exact Nat.le_of_eq (congrArg f (List.mem_singleton.1 hy))
    · rintro ⟨hmem, hall⟩
      rcases List.mem_append.1 hmem with hmem | hmem
      · have hle := hall last (by simp)
        have hlt := hbelow x hmem
        omega
      · exact (List.mem_singleton.1 hmem).symm

end Clausal
