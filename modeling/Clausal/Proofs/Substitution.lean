/-
  Clausal.Proofs.Substitution

  Names replaced one after the other, and names replaced all at once. Bindings are put into a body
  in order, so a value that mentions a later variable has that variable replaced in it as well.
  `Term.replace` puts terms in the places of all names at once, and looks into none of them.

    * `Bindings.apply_eq_replace`: what is put in at once is not the values themselves but what the
      bindings behind them make of them (`Bindings.resolved`);
    * `Bindings.apply_eq_replace_lookup`: it is the values themselves where no value mentions a
      variable that is bound behind it;
    * `Bindings.lookup_gather`: under each name stands the value that it was bound to last.
-/
import Clausal.Proofs.Semantics
import Clausal.Proofs.Strip

namespace Clausal

namespace Term

/-! ## Where names stand -/

section Occurs

variable (n : String)

attribute [local simp] occurs

@[simp] theorem occurs_ident (m : String) : occurs (.ident n) (.ident m) = decide (m = n) := by
  simp

@[simp] theorem occurs_group (t : Term) : occurs (.ident n) (.group t) = occurs (.ident n) t := by
  simp

@[simp] theorem occurs_seq (k : Sequence) (xs : List Term) :
    occurs (.ident n) (.seq k xs) = xs.any (occurs (.ident n)) := by
  simp

@[simp] theorem occurs_rel (k : Relation) (a b : Term) :
    occurs (.ident n) (.rel k a b) = (occurs (.ident n) a || occurs (.ident n) b) := by
  simp

@[simp] theorem occurs_builtin (a b : Term) : occurs (.ident n) (.builtin a b) = false := by
  simp

@[simp] theorem occurs_marker : occurs (.ident n) .marker = false := by
  simp

@[simp] theorem occurs_builtinMarker : occurs (.ident n) .builtinMarker = false := by
  simp

@[simp] theorem occurs_hole : occurs (.ident n) .hole = false := by
  simp

end Occurs

/-! ## All names at once -/

mutual

/-- The term with other terms in the places of its names, all put in at once. Like `subst`, it
    leaves builtin signatures alone. -/
def replace (σ : String → Option Term) : Term → Term
  | .ident n => (σ n).getD (.ident n)
  | .group t => .group (replace σ t)
  | .seq k xs => .seq k (replaceAll σ xs)
  | .rel k a b => .rel k (replace σ a) (replace σ b)
  | .builtin a b => .builtin a b
  | .marker => .marker
  | .builtinMarker => .builtinMarker
  | .hole => .hole

def replaceAll (σ : String → Option Term) : List Term → List Term
  | [] => []
  | t :: ts => replace σ t :: replaceAll σ ts

end

@[simp] theorem replaceAll_eq_map (σ : String → Option Term) (ts : List Term) :
    replaceAll σ ts = ts.map (replace σ) := by
  induction ts with
  | nil => rfl
  | cons t ts ih => rw [replaceAll, ih, List.map_cons]

/-- Names that are not replaced may be left out of account. -/
theorem replace_congr {σ τ : String → Option Term} {t : Term}
    (h : ∀ n, occurs (.ident n) t = true → σ n = τ n) : t.replace σ = t.replace τ := by
  induction t using inductionOn with
  | ident n => rw [replace, replace, h n (by simp)]
  | group t ih => rw [replace, replace, ih fun n hn => h n (by simpa using hn)]
  | seq k xs ih =>
    have hxs : xs.map (replace σ) = xs.map (replace τ) := by
      refine List.map_congr_left fun x hx => ih x hx fun n hn => h n ?_
      rw [occurs_seq, List.any_eq_true]
      exact ⟨x, hx, hn⟩
    rw [replace, replace, replaceAll_eq_map, replaceAll_eq_map, hxs]
  | rel k a b iha ihb =>
    rw [replace, replace, iha fun n hn => h n (by simp [hn]), ihb fun n hn => h n (by simp [hn])]
  | _ => rfl

theorem replace_none (t : Term) : t.replace (fun _ => none) = t := by
  induction t using inductionOn with
  | seq k xs ih =>
    rw [replace, replaceAll_eq_map, List.map_congr_left ih, List.map_id']
  | group t ih => rw [replace, ih]
  | rel k a b iha ihb => rw [replace, iha, ihb]
  | _ => rfl

/-- A term in which no name is replaced stays as it is. -/
theorem replace_of_fresh {σ : String → Option Term} {t : Term}
    (h : ∀ n, occurs (.ident n) t = true → σ n = none) : t.replace σ = t :=
  (replace_congr h).trans (replace_none t)

/-- A name that is replaced first has its term replaced in by what follows. -/
theorem replace_subst (n : String) (r : Term) (σ : String → Option Term) (t : Term) :
    (subst (.ident n) r t).replace σ
      = t.replace fun m => if m = n then some (r.replace σ) else σ m := by
  induction t using inductionOn with
  | ident m =>
    by_cases h : m = n
    · simp [subst, replace, h]
    · simp [subst, replace, h]
  | group t ih => simpa [subst, replace] using ih
  | seq k xs ih => simpa [subst, replace] using ih
  | rel k a b iha ihb => simp [subst, replace, iha, ihb]
  | builtin a b _ _ => simp [subst, replace]
  | marker => simp [subst, replace]
  | builtinMarker => simp [subst, replace]
  | hole => simp [subst, replace]

/-- A name stands in the outcome exactly if it stands in what was put in for one of the names, or
    was one that stayed. -/
theorem occurs_replace {n : String} {σ : String → Option Term} {t : Term} :
    occurs (.ident n) (t.replace σ) = true ↔
      ∃ m, occurs (.ident m) t = true ∧ occurs (.ident n) ((σ m).getD (.ident m)) = true := by
  induction t using inductionOn with
  | ident m => simp [replace]
  | group t ih => simpa [replace] using ih
  | seq k xs ih =>
    simp only [replace, replaceAll_eq_map, occurs_seq, List.any_map, List.any_eq_true,
      Function.comp_apply]
    constructor
    · rintro ⟨x, hx, hn⟩
      obtain ⟨m, hm, hm'⟩ := (ih x hx).1 hn
      exact ⟨m, ⟨x, hx, hm⟩, hm'⟩
    · rintro ⟨m, ⟨x, hx, hm⟩, hm'⟩
      exact ⟨x, hx, (ih x hx).2 ⟨m, hm, hm'⟩⟩
  | rel k a b iha ihb =>
    simp only [replace, occurs_rel, Bool.or_eq_true, iha, ihb]
    constructor
    · rintro (⟨m, hm, hn⟩ | ⟨m, hm, hn⟩)
      · exact ⟨m, .inl hm, hn⟩
      · exact ⟨m, .inr hm, hn⟩
    · rintro ⟨m, hm | hm, hn⟩
      · exact .inl ⟨m, hm, hn⟩
      · exact .inr ⟨m, hm, hn⟩
  | _ => simp [replace]

end Term

/-! ## Bindings -/

namespace Bindings

/-- What comes to stand in the place of a name: the value that it is bound to, with the bindings
    behind that one put into it. -/
def resolved : Bindings → String → Option Term
  | [], _ => none
  | entry :: rest, n => if n = entry.1 then some (apply rest entry.2) else resolved rest n

/-- Bindings that are put in one after the other are put in at once, each with those behind it put
    into it. -/
theorem apply_eq_replace (bound : Bindings) (body : Term) :
    apply bound body = body.replace (resolved bound) := by
  -- The first binding is followed by the others, which by induction are put in at once.
  induction bound generalizing body with
  | nil => exact (Term.replace_none body).symm
  | cons entry rest ih =>
    have hfirst :
        apply (entry :: rest) body = apply rest (Term.subst (.ident entry.1) entry.2 body) := rfl
    rw [hfirst, ih, Term.replace_subst]
    refine Term.replace_congr fun n _ => ?_
    rw [resolved, ih]

/-- Bindings of names that do not stand in a term change nothing about it. -/
theorem apply_of_fresh {bound : Bindings} {t : Term}
    (h : ∀ entry ∈ bound, Term.occurs (.ident entry.1) t = false) : apply bound t = t := by
  rw [apply_eq_replace]
  refine Term.replace_of_fresh fun n hn => ?_
  induction bound with
  | nil => rfl
  | cons entry rest ih =>
    rw [List.forall_mem_cons] at h
    have hne : n ≠ entry.1 := by
      rintro rfl
      rw [h.1] at hn
      cases hn
    rw [resolved, if_neg hne]
    exact ih h.2

theorem resolved_eq_lookup {bound : Bindings}
    (h : bound.Pairwise fun entry later => Term.occurs (.ident later.1) entry.2 = false)
    (n : String) : resolved bound n = bound.lookup n := by
  induction h with
  | nil => rfl
  | @cons entry rest hentry _ ih =>
    rw [resolved, List.lookup_cons, apply_of_fresh hentry, ih]
    by_cases hn : n = entry.1
    · simp [hn]
    · simp [hn, beq_false_of_ne hn]

/-- Where no value mentions a variable that is bound behind it, the values themselves are put in,
    all at once. -/
theorem apply_eq_replace_lookup {bound : Bindings}
    (h : bound.Pairwise fun entry later => Term.occurs (.ident later.1) entry.2 = false)
    (body : Term) : apply bound body = body.replace fun n => bound.lookup n := by
  rw [apply_eq_replace]
  exact Term.replace_congr fun n _ => resolved_eq_lookup h n

end Bindings

/-! ## Bindings as they are found -/

namespace Bindings

theorem mem_of_latest {n : String} {v : Term} {pairs : List (String × Term)}
    (h : latest n pairs = some v) : (n, v) ∈ pairs := by
  induction pairs with
  | nil => cases h
  | cons pair rest ih =>
    obtain ⟨m, w⟩ := pair
    rw [latest] at h
    rcases Option.or_eq_some_iff.1 h with hrest | ⟨-, hfirst⟩
    · exact List.mem_cons_of_mem _ (ih hrest)
    · obtain ⟨rfl, hw⟩ := Option.ite_none_right_eq_some.1 hfirst
      cases hw
      exact List.mem_cons_self

/-- A name that was bound has a value that it was bound to last. -/
theorem exists_latest {n : String} {v : Term} {pairs : List (String × Term)}
    (h : (n, v) ∈ pairs) : ∃ w, latest n pairs = some w := by
  induction pairs with
  | nil => cases h
  | cons pair rest ih =>
    obtain ⟨m, w⟩ := pair
    rw [latest]
    rcases List.mem_cons.1 h with heq | hrest
    · cases heq
      cases latest n rest with
      | none => exact ⟨v, by simp⟩
      | some u => exact ⟨u, rfl⟩
    · obtain ⟨u, hu⟩ := ih hrest
      exact ⟨u, by rw [hu, Option.some_or]⟩

theorem mem_of_gather {pairs : List (String × Term)} {entry : String × Term}
    (h : entry ∈ gather pairs) : entry ∈ pairs := by
  induction pairs with
  | nil => cases h
  | cons pair rest ih =>
    obtain ⟨m, w⟩ := pair
    rw [gather] at h
    rcases List.mem_cons.1 h with rfl | hrest
    · cases hlatest : latest m rest with
      | none => exact List.mem_cons_self
      | some u => exact List.mem_cons_of_mem _ (mem_of_latest hlatest)
    · exact List.mem_cons_of_mem _ (ih (List.mem_filter.1 hrest).1)

/-- Leaving out one name changes nothing about the others. -/
theorem lookup_filter_ne {m n : String} (h : n ≠ m) (bound : Bindings) :
    (bound.filter fun entry => entry.1 ≠ m).lookup n = bound.lookup n := by
  induction bound with
  | nil => rfl
  | cons entry rest ih =>
    by_cases hentry : entry.1 = m
    · have hne : (n == entry.1) = false := beq_false_of_ne (hentry ▸ h)
      rw [List.filter_cons_of_neg (by simpa using hentry), ih, List.lookup_cons, hne]
    · rw [List.filter_cons_of_pos (by simpa using hentry), List.lookup_cons, List.lookup_cons, ih]

/-- Under each name stands the value that it was bound to last. -/
theorem lookup_gather (n : String) (pairs : List (String × Term)) :
    (gather pairs).lookup n = latest n pairs := by
  induction pairs with
  | nil => rfl
  | cons pair rest ih =>
    obtain ⟨m, w⟩ := pair
    rw [gather, latest, List.lookup_cons]
    by_cases h : n = m
    · subst h
      cases latest n rest <;> simp
    · rw [beq_false_of_ne h, lookup_filter_ne h, ih, if_neg (Ne.symm h), Option.or_none]

end Bindings

theorem Pattern.mem_bindings {patterns : List Pattern} {values : List Term} {n : String} {v : Term}
    (h : (n, v) ∈ Pattern.bindings patterns values) : .var n ∈ patterns ∧ v ∈ values := by
  induction patterns generalizing values with
  | nil => cases h
  | cons p patterns ih =>
    cases values with
    | nil => cases h
    | cons w values =>
      rw [Pattern.bindings, List.zipWith_cons_cons, List.filterMap_cons] at h
      have hrest : (n, v) ∈ Pattern.bindings patterns values → .var n ∈ p :: patterns ∧
          v ∈ w :: values := by
        intro hmem
        obtain ⟨hp, hv⟩ := ih hmem
        exact ⟨List.mem_cons_of_mem _ hp, List.mem_cons_of_mem _ hv⟩
      cases p with
      | literal t => exact hrest h
      | wildcard => exact hrest h
      | var m =>
        rcases List.mem_cons.1 h with heq | hmem
        · cases heq
          exact ⟨List.mem_cons_self, List.mem_cons_self⟩
        · exact hrest hmem

/-- A variable that has a value at its position is bound. -/
theorem Pattern.exists_mem_bindings {patterns : List Pattern} {values : List Term} {n : String}
    (hlen : patterns.length ≤ values.length) (h : .var n ∈ patterns) :
    ∃ v, (n, v) ∈ Pattern.bindings patterns values := by
  induction patterns generalizing values with
  | nil => cases h
  | cons p patterns ih =>
    cases values with
    | nil => simp at hlen
    | cons w values =>
      rw [Pattern.bindings, List.zipWith_cons_cons, List.filterMap_cons]
      have hlen : patterns.length ≤ values.length := by simpa using hlen
      rcases List.mem_cons.1 h with rfl | hrest
      · exact ⟨w, List.mem_cons_self⟩
      · obtain ⟨v, hv⟩ := ih hlen hrest
        refine ⟨v, ?_⟩
        cases p with
        | literal t => exact hv
        | wildcard => exact hv
        | var m => exact List.mem_cons_of_mem _ hv

end Clausal
