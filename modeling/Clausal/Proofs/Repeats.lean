/-
  Clausal.Proofs.Repeats

  Names that come up again and again. They are listed where they come up first
  (`eraseDups_concat`), and what is found under them is what came last
  (`lookup_reverse_concat`).
-/
import Mathlib.Data.List.Basic
import Mathlib.Data.List.Induction

namespace Clausal

variable {α : Type} [BEq α]

/-- A member at the end is kept if it did not stand in the list before. -/
theorem eraseDups_concat [LawfulBEq α] (xs : List α) (x : α) [Decidable (x ∈ xs)] :
    (xs ++ [x]).eraseDups = if x ∈ xs then xs.eraseDups else xs.eraseDups ++ [x] := by
  rw [List.eraseDups_append]
  split
  · rename_i hold
    simp [List.removeAll, hold]
  · rename_i hnew
    simp [List.removeAll, hnew, List.eraseDups_cons]

theorem nodup_eraseDups [LawfulBEq α] (xs : List α) : xs.eraseDups.Nodup := by
  classical
  induction xs using List.reverseRecOn with
  | nil => simp
  | append_singleton xs x ih =>
    rw [eraseDups_concat]
    split
    · exact ih
    · rename_i hnew
      have hne : ∀ y ∈ xs.eraseDups, y ≠ x := by
        rintro y hy rfl
        exact hnew (List.mem_eraseDups.1 hy)
      simpa [List.nodup_append, ih] using hne

/-- The last of some pairs is found first from the end. -/
theorem lookup_reverse_concat {β : Type} (pairs : List (α × β)) (pair : α × β) (key : α) :
    (pairs ++ [pair]).reverse.lookup key
      = if key == pair.1 then some pair.2 else pairs.reverse.lookup key := by
  rw [List.reverse_concat, List.lookup_cons]
  cases key == pair.1 <;> rfl

theorem lookup_reverse_eq_none_iff [LawfulBEq α] {β : Type} {pairs : List (α × β)} {key : α} :
    pairs.reverse.lookup key = none ↔ ∀ v, (key, v) ∉ pairs := by
  rw [List.lookup_eq_none_iff]
  constructor
  · intro h v hmem
    simpa using h (key, v) (List.mem_reverse.2 hmem)
  · rintro h ⟨k, v⟩ hmem
    rw [bne_iff_ne]
    rintro rfl
    exact h v (List.mem_reverse.1 hmem)

end Clausal
