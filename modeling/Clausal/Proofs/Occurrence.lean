/-
  Clausal.Proofs.Occurrence

  Looking for a term and putting another in its place go through a term in the same way. Both look
  at a place before they look below it, both go to every element of a sequence and to both sides of
  a relation, and neither looks into a builtin signature. So a term is changed exactly if what is
  replaced stands in it and is replaced by something else (`Term.subst_eq_self_iff`).

  A missing term is an exception: it can be found, but it is never replaced (`Term.subst_hole`).
-/
import Clausal.Proofs.Strip

namespace Clausal.Term

variable {key repl : Term}

/-! ## One place -/

/-- A place is left as it is if the key does not stand there and what is below is left as it is, or
    if the key is put back. -/
theorem place_eq_iff {t t' : Term} {below : Bool} (h : t' = t ↔ below = false ∨ repl = key) :
    (if t = key then repl else t') = t ↔ (decide (t = key) || below) = false ∨ repl = key := by
  by_cases ht : t = key
  · simp [ht]
  · simp [ht, h]

/-- A place with nothing below it. -/
theorem leaf_eq_iff (t : Term) :
    (if t = key then repl else t) = t ↔ decide (t = key) = false ∨ repl = key := by
  have hbelow : t = t ↔ false = false ∨ repl = key := by simp
  simpa using place_eq_iff hbelow

/-! ## Whole terms -/

/-- A term is left as it is exactly if the key does not stand in it or is replaced by itself. -/
theorem subst_eq_self_iff (hkey : key ≠ .hole) (t : Term) :
    subst key repl t = t ↔ occurs key t = false ∨ repl = key := by
  induction t using inductionOn with
  | ident n => exact leaf_eq_iff _
  | group t ih =>
    refine place_eq_iff ?_
    rw [group.injEq, ih]
  | seq k xs ih =>
    refine place_eq_iff ?_
    -- All elements have to stay, and the key may stand in none of them.
    have hall : xs.map (subst key repl) = xs ↔ ∀ x ∈ xs, occurs key x = false ∨ repl = key := by
      have hid := List.map_inj_left (l := xs) (f := subst key repl) (g := id)
      rw [List.map_id] at hid
      exact hid.trans (forall₂_congr ih)
    rw [seq.injEq, substAll_eq_map, occursAny_eq_any, hall]
    by_cases hrepl : repl = key
    · simp [hrepl]
    · simp [hrepl]
  | rel k a b iha ihb =>
    refine place_eq_iff ?_
    simp only [rel.injEq, true_and, iha, ihb, Bool.or_eq_false_iff, and_or_right]
  | builtin a b _ _ => exact leaf_eq_iff _
  | marker => exact leaf_eq_iff _
  | builtinMarker => exact leaf_eq_iff _
  | hole => simp [subst, occurs, hkey.symm]

/-- A missing term is not replaced, wherever one is missing. -/
theorem subst_hole (repl t : Term) : subst .hole repl t = t := by
  induction t using inductionOn with
  | group t ih => simp [subst, ih]
  | seq k xs ih =>
    have hxs : xs.map (subst .hole repl) = xs :=
      (List.map_congr_left ih).trans (List.map_id' xs)
    simp [subst, hxs]
  | rel k a b iha ihb => simp [subst, iha, ihb]
  | _ => simp [subst]

/-- A term in which the key does not stand is left as it is, whatever the key. -/
theorem subst_of_absent {t : Term} (h : occurs key t = false) : subst key repl t = t := by
  by_cases hkey : key = .hole
  · rw [hkey, subst_hole]
  · exact (subst_eq_self_iff hkey t).2 (.inl h)

theorem subst_ne_self {t : Term} (hkey : key ≠ .hole) (h : occurs key t = true)
    (hrepl : repl ≠ key) : subst key repl t ≠ t := by
  rw [ne_eq, subst_eq_self_iff hkey, h]
  simp [hrepl]

/-- **What is found is what is replaced.** For every key that is not a missing term, be it a name or
    compound: a term is equal to what it becomes when the key is replaced exactly if the key is not
    found in it or is replaced by an equal term. So a key that is not found may be replaced by
    anything without effect, and one that is found is replaced by nothing else unnoticed. -/
theorem replaced_iff_found {key : Term} (hkey : key ≠ .hole) (t repl : Term) :
    ((subst key repl t).same t = true ↔ occurs key t = false ∨ repl.same key = true) ∧
      (occurs key t = false → subst key repl t = t) ∧
      (occurs key t = true → repl.same key = false → (subst key repl t).same t = false) := by
  refine ⟨?_, subst_of_absent, fun hfound hrepl => ?_⟩
  · rw [same_iff, same_iff]
    exact subst_eq_self_iff hkey t
  · rw [← Bool.not_eq_true, same_iff] at hrepl ⊢
    exact subst_ne_self hkey hfound hrepl

/-- A signature with a call for a type, which is written in parentheses. A group next to it holds
    nothing. -/
def typedCall : Term :=
  .app [.group .hole, .isa (.ident "f") (.group (.app [.ident "g", .ident "x"]))]

/-- The call is found as a whole, and putting it into another call shows. Inside a builtin signature
    it is not found, and nothing is put in its place. -/
theorem replaced_iff_found_call :
    app [ident "g", ident "x"] ≠ hole ∧
      (subst (.app [.ident "g", .ident "x"])
        (.app [.ident "h", .app [.ident "g", .ident "x"]]) typedCall).same typedCall = false ∧
      subst (.app [.ident "g", .ident "x"]) (.ident "y") (.builtin (.ident "f") typedCall)
        = .builtin (.ident "f") typedCall := by
  have hkey : app [ident "g", ident "x"] ≠ hole := by decide
  refine ⟨hkey, ?_, ?_⟩
  · exact (replaced_iff_found hkey _ _).2.2 (by decide) (by decide)
  · exact (replaced_iff_found hkey _ _).2.1 (by decide)

end Clausal.Term
