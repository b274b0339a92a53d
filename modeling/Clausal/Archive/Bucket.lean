/-
  Clausal.Archive.Bucket

  Buckets: values under keys. A key is a list of bytes, and a bucket is gone through in the order of
  its keys, byte by byte from the front. A number that serves as a key is written with its highest
  byte first, so that keys come in the order of the numbers; a list is kept by putting each of its
  values under the number of its place (`Bucket.numbered`).
-/
namespace Clausal

/-- The lowest `count` bytes of a number, the highest of them first. -/
def bigEndian : Nat → Nat → List UInt8
  | 0, _ => []
  | count + 1, n => UInt8.ofNat (n >>> (8 * count)) :: bigEndian count n

/-- Puts a value under a key, in its place among others. A value that stood there is replaced. -/
def putEntry {α : Type} (key : List UInt8) (value : α) :
    List (List UInt8 × α) → List (List UInt8 × α)
  | [] => [(key, value)]
  | entry :: rest =>
    if key < entry.1 then (key, value) :: entry :: rest
    else if key = entry.1 then (key, value) :: rest
    else entry :: putEntry key value rest

theorem eq_or_mem_of_mem_putEntry {α : Type} {key : List UInt8} {value : α}
    {entries : List (List UInt8 × α)} {entry : List UInt8 × α}
    (h : entry ∈ putEntry key value entries) : entry = (key, value) ∨ entry ∈ entries := by
  induction entries with
  | nil => exact .inl (List.mem_singleton.1 h)
  | cons first rest ih =>
    rw [putEntry] at h
    split at h
    · exact List.mem_cons.1 h
    · split at h
      · rcases List.mem_cons.1 h with h | h
        · exact .inl h
        · exact .inr (List.mem_cons_of_mem _ h)
      · rcases List.mem_cons.1 h with h | h
        · exact .inr (List.mem_cons.2 (.inl h))
        · exact (ih h).imp_right (List.mem_cons_of_mem _)

/-- A list in the order of its keys stays so. -/
theorem putEntry_sorted {α : Type} {entries : List (List UInt8 × α)}
    (h : entries.Pairwise fun a b => a.1 < b.1) (key : List UInt8) (value : α) :
    (putEntry key value entries).Pairwise fun a b => a.1 < b.1 := by
  induction h with
  | nil => exact List.pairwise_singleton _ _
  | @cons first rest hfirst hrest ih =>
    rw [putEntry]
    split
    · rename_i hlt
      refine .cons ?_ (.cons hfirst hrest)
      intro entry hentry
      rcases List.mem_cons.1 hentry with rfl | hentry
      · exact hlt
      · exact List.lt_trans hlt (hfirst entry hentry)
    · split
      · rename_i heq
        refine .cons ?_ hrest
        intro entry hentry
        rw [heq]
        exact hfirst entry hentry
      · rename_i hnot hne
        refine .cons ?_ ih
        intro entry hentry
        rcases eq_or_mem_of_mem_putEntry hentry with rfl | hentry
        · -- The key is neither before the first one nor the same.
          apply Classical.byContradiction
          intro hnot'
          exact hne (List.le_antisymm (List.not_lt.1 hnot') (List.not_lt.1 hnot))
        · exact hfirst entry hentry

/-- Values under keys, in the order of the keys. No key stands twice. -/
structure Bucket (α : Type) where
  entries : List (List UInt8 × α)
  sorted : entries.Pairwise fun a b => a.1 < b.1
  deriving DecidableEq, Repr

namespace Bucket

variable {α : Type}

def empty : Bucket α := ⟨[], .nil⟩

/-- The value under a key. -/
def get? (b : Bucket α) (key : List UInt8) : Option α := b.entries.lookup key

/-- The bucket with a value under a key. A value that stood there is replaced. -/
def put (b : Bucket α) (key : List UInt8) (value : α) : Bucket α :=
  ⟨putEntry key value b.entries, putEntry_sorted b.sorted key value⟩

/-- All values, in the order of their keys. -/
def values (b : Bucket α) : List α := b.entries.map (·.2)

/-- The value under the last key. -/
def last? (b : Bucket α) : Option α := b.entries.getLast?.map (·.2)

/-- The bucket with some values under keys, no two of them the same. -/
def ofEntries (entries : List (List UInt8 × α)) : Bucket α :=
  -- From the last to the first: entries that come in order are then put in front, one by one.
  entries.foldr (fun entry b => b.put entry.1 entry.2) empty

/-- The bucket with each of some values under the number of its place. -/
def numbered (values : List α) : Bucket α :=
  ofEntries (values.zipIdx.map fun entry => (bigEndian 8 entry.2, entry.1))

@[simp] theorem get?_empty (key : List UInt8) : (empty : Bucket α).get? key = none := rfl

theorem lookup_putEntry (key : List UInt8) (value : α) (other : List UInt8)
    (entries : List (List UInt8 × α)) :
    (putEntry key value entries).lookup other
      = if other = key then some value else entries.lookup other := by
  induction entries with
  | nil =>
    rw [putEntry, List.lookup_cons]
    by_cases h : other = key
    · simp [h]
    · simp [h, beq_false_of_ne h]
  | cons first rest ih =>
    rw [putEntry]
    split
    · rw [List.lookup_cons]
      by_cases h : other = key
      · simp [h]
      · simp [h, beq_false_of_ne h]
    · split
      · rename_i heq
        rw [List.lookup_cons, List.lookup_cons, ← heq]
        by_cases h : other = key
        · simp [h]
        · simp [h, beq_false_of_ne h]
      · rename_i hne
        rw [List.lookup_cons, List.lookup_cons, ih]
        by_cases h : other = key
        · simp [h, beq_false_of_ne hne]
        · simp [h]

/-- A key finds what was put under it last. -/
theorem get?_put (b : Bucket α) (key : List UInt8) (value : α) (other : List UInt8) :
    (b.put key value).get? other = if other = key then some value else b.get? other :=
  lookup_putEntry key value other b.entries

end Bucket

end Clausal
