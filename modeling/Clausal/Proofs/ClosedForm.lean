/-
  Clausal.Proofs.ClosedForm

  What it comes to, in closed form, that names are bound one after the other and that what they are
  bound to is put in one after the other.

    * `Bindings.bindAll_gathers`: each name is bound once, where it first came up, to the value that
      it was given last;
    * `Bindings.resolved_resolves`: which captures the order makes. What is put in for a name is its
      value with the bindings behind it put into it, and nothing else;
    * `Term.occurs_subst`: when a name is still there after it was replaced;
    * `Bindings.apply_in_closed_form`: all of it, with the equation `Bindings.apply_eq_replace`.
-/
import Clausal.Proofs.Repeats
import Clausal.Proofs.Substitution

namespace Clausal

namespace Bindings

/-! ## Names bound one after the other -/

/-- Names bound to values in order, where none was bound before. -/
def bindAll (pairs : List (String × Term)) : Bindings :=
  pairs.foldl (fun bound entry => bind entry.1 entry.2 bound) []

theorem bindAll_concat (pairs : List (String × Term)) (entry : String × Term) :
    bindAll (pairs ++ [entry]) = bind entry.1 entry.2 (bindAll pairs) :=
  List.foldl_concat ..

/-- The bound names, in order. -/
def names (bound : Bindings) : List String := bound.map (·.1)

/-- A name that is bound again keeps its place, and another goes to the end. -/
theorem names_bind (n : String) (v : Term) (bound : Bindings) :
    names (bind n v bound) = if n ∈ names bound then names bound else names bound ++ [n] := by
  induction bound with
  | nil => rfl
  | cons entry rest ih =>
    by_cases hentry : entry.1 = n
    · simp [bind, names, hentry]
    · -- The first name stays in front, and the rest is bound in.
      have hmem : n ∈ names (entry :: rest) ↔ n ∈ names rest := by
        simp [names, Ne.symm hentry]
      have hcons : names (bind n v (entry :: rest)) = entry.1 :: names (bind n v rest) := by
        simp [bind, names, hentry]
      rw [hcons, ih]
      simp only [hmem]
      split
      · rfl
      · rfl

/-- Under a name that is bound stands its value, and under the others what stood there before. -/
theorem lookup_bind (n : String) (v : Term) (bound : Bindings) (m : String) :
    (bind n v bound).lookup m = if m = n then some v else bound.lookup m := by
  induction bound with
  | nil =>
    rw [bind, List.lookup_cons]
    by_cases hm : m = n
    · simp [hm]
    · simp [hm, beq_false_of_ne hm]
  | cons entry rest ih =>
    obtain ⟨k, w⟩ := entry
    by_cases hk : k = n
    · rw [bind, if_pos hk, List.lookup_cons, List.lookup_cons, hk]
      by_cases hm : m = n
      · simp [hm]
      · simp [hm, beq_false_of_ne hm]
    · rw [bind, if_neg hk, List.lookup_cons, List.lookup_cons, ih]
      by_cases hm : m = k
      · subst hm
        simp [hk]
      · simp [beq_false_of_ne hm]

/-- Of some pairs of a name and a value each name is bound once, in the order in which the names
    first come up, and to the last of its values. -/
structure Gathers (bound : Bindings) (pairs : List (String × Term)) : Prop where
  nodup : (names bound).Nodup
  names_eq : names bound = (pairs.map (·.1)).eraseDups
  lookup_eq : ∀ n, bound.lookup n = pairs.reverse.lookup n

theorem names_bindAll (pairs : List (String × Term)) :
    names (bindAll pairs) = (pairs.map (·.1)).eraseDups := by
  induction pairs using List.reverseRecOn with
  | nil => rfl
  | append_singleton pairs entry ih =>
    rw [bindAll_concat, names_bind, ih, List.map_append, List.map_singleton, eraseDups_concat]
    simp only [List.mem_eraseDups]

theorem lookup_bindAll (pairs : List (String × Term)) (n : String) :
    (bindAll pairs).lookup n = pairs.reverse.lookup n := by
  induction pairs using List.reverseRecOn with
  | nil => rfl
  | append_singleton pairs entry ih =>
    simp only [bindAll_concat, lookup_bind, ih, lookup_reverse_concat, beq_iff_eq]

theorem bindAll_gathers (pairs : List (String × Term)) : Gathers (bindAll pairs) pairs where
  nodup := by
    rw [names_bindAll]
    exact nodup_eraseDups _
  names_eq := names_bindAll pairs
  lookup_eq := lookup_bindAll pairs

/-! ## Values put in one after the other -/

/-- In the place of each bound name comes its value, with the bindings behind it put into it, and in
    the place of any other name nothing. -/
structure Resolves (bound : Bindings) (σ : String → Option Term) : Prop where
  named : ∀ i n v, bound[i]? = some (n, v) → σ n = some (apply (bound.drop (i + 1)) v)
  unnamed : ∀ n, n ∉ names bound → σ n = none

theorem resolved_of_not_mem {bound : Bindings} {n : String} (h : n ∉ names bound) :
    resolved bound n = none := by
  induction bound with
  | nil => rfl
  | cons entry rest ih =>
    rw [names, List.map_cons, List.mem_cons, not_or] at h
    rw [resolved, if_neg h.1]
    exact ih h.2

theorem resolved_of_getElem? {bound : Bindings} (hnodup : (names bound).Nodup) {i : Nat}
    {n : String} {v : Term} (h : bound[i]? = some (n, v)) :
    resolved bound n = some (apply (bound.drop (i + 1)) v) := by
  induction bound generalizing i with
  | nil => cases h
  | cons entry rest ih =>
    rw [names, List.map_cons, List.nodup_cons] at hnodup
    cases i with
    | zero =>
      cases h
      rw [resolved, if_pos rfl]
      rfl
    | succ i =>
      -- The name stands further back, so it is not the first one.
      have hne : n ≠ entry.1 := by
        rintro rfl
        exact hnodup.1 (List.mem_map.2 ⟨_, List.mem_of_getElem? h, rfl⟩)
      rw [resolved, if_neg hne]
      exact ih hnodup.2 h

theorem resolved_resolves {bound : Bindings} (hnodup : (names bound).Nodup) :
    Resolves bound (resolved bound) where
  named _ _ _ h := resolved_of_getElem? hnodup h
  unnamed _ h := resolved_of_not_mem h

end Bindings

/-! ## Names that were replaced -/

namespace Term

/-- One name is replaced. -/
theorem subst_eq_replace (n : String) (r t : Term) :
    subst (.ident n) r t = t.replace fun m => if m = n then some r else none := by
  rw [← replace_none (subst (.ident n) r t), replace_subst, replace_none]

/-- A name that was replaced is still there exactly if it was there and stands in what was put in
    for it. -/
theorem occurs_subst (n : String) (r t : Term) :
    occurs (.ident n) (subst (.ident n) r t) = (occurs (.ident n) t && occurs (.ident n) r) := by
  rw [Bool.eq_iff_iff, subst_eq_replace, occurs_replace, Bool.and_eq_true]
  constructor
  · rintro ⟨m, hm, hn⟩
    -- Another name stands for itself, so it brings the replaced one nowhere.
    by_cases h : m = n
    · subst h
      exact ⟨hm, by simpa using hn⟩
    · simp [h] at hn
  · rintro ⟨ht, hr⟩
    exact ⟨n, ht, by simpa using hr⟩

end Term

namespace Bindings

/-- **Bindings in closed form.** Of names that are bound one after the other each is bound once, in
    the order in which they first come up, to the value that it was given last. Putting the values
    into a body one after the other puts a term in the place of every name at once, and leaves
    builtin signatures alone: in the place of each bound name comes its value with the bindings
    behind it put into it. So the values themselves come there, if none of them mentions a name that
    is bound behind it. A single name is still there after it was replaced exactly if it was there
    and stands in what was put in for it. -/
theorem apply_in_closed_form (pairs : List (String × Term)) :
    Gathers (bindAll pairs) pairs ∧
      Resolves (bindAll pairs) (resolved (bindAll pairs)) ∧
      (∀ body, apply (bindAll pairs) body = body.replace (resolved (bindAll pairs))) ∧
      (((bindAll pairs).Pairwise fun entry later =>
          Term.occurs (.ident later.1) entry.2 = false) →
        ∀ body, apply (bindAll pairs) body = body.replace fun n => (bindAll pairs).lookup n) ∧
      ∀ (n : String) (r t : Term), Term.occurs (.ident n) (Term.subst (.ident n) r t)
        = (Term.occurs (.ident n) t && Term.occurs (.ident n) r) := by
  have hgathers := bindAll_gathers pairs
  exact ⟨hgathers, resolved_resolves hgathers.nodup, apply_eq_replace _, apply_eq_replace_lookup,
    Term.occurs_subst⟩

/-- A name that is bound twice, to values that mention another name, and that other name. -/
def capturedPairs : List (String × Term) :=
  [("X", .app [.ident "f", .ident "Y"]), ("Y", .ident "a"), ("X", .app [.ident "g", .ident "Y"])]

/-- The first name keeps its place and has the later value, in which the second one is replaced. If
    it is the value behind that mentions the name in front, nothing is captured. -/
theorem apply_in_closed_form_captured :
    bindAll capturedPairs = [("X", .app [.ident "g", .ident "Y"]), ("Y", .ident "a")] ∧
      apply (bindAll capturedPairs) (.app [.ident "X", .builtin (.ident "Y") (.ident "X")])
        = .app [.app [.ident "g", .ident "a"], .builtin (.ident "Y") (.ident "X")] ∧
      (bindAll [("X", .ident "a"), ("Y", .group (.ident "X"))]).Pairwise (fun entry later =>
        Term.occurs (.ident later.1) entry.2 = false) ∧
      apply (bindAll [("X", .ident "a"), ("Y", .group (.ident "X"))]) (.ident "Y")
        = .group (.ident "X") := by
  obtain ⟨-, -, hall, -, -⟩ := apply_in_closed_form capturedPairs
  obtain ⟨-, -, -, hfree, -⟩ :=
    apply_in_closed_form [("X", .ident "a"), ("Y", .group (.ident "X"))]
  have hpairwise : (bindAll [("X", .ident "a"), ("Y", .group (.ident "X"))]).Pairwise
      (fun entry later => Term.occurs (.ident later.1) entry.2 = false) := by
    decide
  refine ⟨by decide, ?_, hpairwise, ?_⟩
  · rw [hall]
    decide
  · rw [hfree hpairwise]
    decide

end Bindings

end Clausal
