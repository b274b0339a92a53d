/-
  Clausal.Proofs.Matching

  The machine tries clause after clause and asks for the value of each argument anew; the
  semantics looks at the values once. `Progress.Leads` says which body a call comes to when its
  arguments are handed the values they have. The two agree:

    * `Selects.leads`: the machine comes to the body of the clause that is selected;
    * `Progress.Leads.selects`: the body that the machine comes to is that of the clause that is
      selected, provided that no argument has two values.

  The second needs the proviso because each attempt asks again. The values that one clause has
  asked for and those that the next one asks for are then prefixes of one list, and the longer
  of the two is the list of all values that were needed.
-/
import Clausal.Machine.Step
import Clausal.Proofs.Semantics
import Mathlib.Data.List.Basic
import Mathlib.Data.List.Induction
import Mathlib.Order.Nat

namespace Clausal

/-! ## Bindings in order -/

namespace Bindings

theorem latest_concat (name n : String) (v : Term) (pairs : List (String × Term)) :
    latest name (pairs ++ [(n, v)]) = if n = name then some v else latest name pairs := by
  induction pairs with
  | nil => simp [latest]
  | cons entry rest ih =>
    obtain ⟨k, w⟩ := entry
    simp only [List.cons_append, latest, ih]
    -- The pair at the end comes last of all, so it decides if it has the name.
    by_cases h : n = name
    · simp [h]
    · simp [h]

/-- Binding a name does not touch the others. -/
theorem filter_bind_ne {k n : String} (h : k ≠ n) (v : Term) (bound : Bindings) :
    (bind n v bound).filter (fun entry => entry.1 ≠ k)
      = bind n v (bound.filter fun entry => entry.1 ≠ k) := by
  induction bound with
  | nil => simp [bind, h.symm]
  | cons entry rest ih =>
    by_cases hn : entry.1 = n
    · have hk : entry.1 ≠ k := fun hk => h (hk.symm.trans hn)
      simp [bind, hn, h.symm]
    · by_cases hk : entry.1 = k
      · simpa [bind, hn, hk, h] using ih
      · simpa [bind, hn, hk] using ih

/-- Without a name, it does not matter that it was bound. -/
theorem filter_bind_self (n : String) (v : Term) (bound : Bindings) :
    (bind n v bound).filter (fun entry => entry.1 ≠ n)
      = bound.filter fun entry => entry.1 ≠ n := by
  induction bound with
  | nil => simp [bind]
  | cons entry rest ih =>
    by_cases hn : entry.1 = n
    · simp [bind, hn]
    · simpa [bind, hn] using ih

/-- A name that is bound once more takes its place in the order, with the new value. -/
theorem gather_concat (n : String) (v : Term) (pairs : List (String × Term)) :
    gather (pairs ++ [(n, v)]) = bind n v (gather pairs) := by
  induction pairs with
  | nil => rfl
  | cons entry rest ih =>
    obtain ⟨k, w⟩ := entry
    simp only [List.cons_append, gather, ih, latest_concat]
    by_cases h : k = n
    · -- The name stands first already: its place stays, its value changes.
      subst h
      rw [filter_bind_self]
      simp [bind]
    · -- The name goes to the names behind the first one.
      rw [filter_bind_ne h]
      simp [bind, h, Ne.symm h]

/-- Binding one after the other is gathering. -/
theorem foldl_bind_eq_gather (pairs : List (String × Term)) :
    pairs.foldl (fun bound entry => bind entry.1 entry.2 bound) [] = gather pairs := by
  -- From the end, since the pair that is bound last is the one at the end.
  induction pairs using List.reverseRecOn with
  | nil => rfl
  | append_singleton rest entry ih =>
    rw [List.foldl_append, ih, List.foldl_cons, List.foldl_nil, gather_concat]

/-- The bindings once a pattern has taken a value. -/
def record (bound : Bindings) (p : Pattern) (value : Term) : Bindings :=
  match p.binding? value with
  | some entry => bind entry.1 entry.2 bound
  | none => bound

/-- The bindings once some patterns have taken their values. -/
def recordAll (bound : Bindings) : List Pattern → List Term → Bindings
  | p :: patterns, v :: values => recordAll (record bound p v) patterns values
  | _, _ => bound

theorem recordAll_eq_foldl (bound : Bindings) (patterns : List Pattern) (values : List Term) :
    recordAll bound patterns values
      = (Pattern.bindings patterns values).foldl (fun b entry => bind entry.1 entry.2 b) bound := by
  induction patterns generalizing bound values with
  | nil => rfl
  | cons p patterns ih =>
    cases values with
    | nil => rfl
    | cons v values =>
      simp only [recordAll, ih, Pattern.bindings, List.zipWith_cons_cons, record]
      cases h : p.binding? v with
      | none => simp
      | some entry => simp

theorem recordAll_nil (patterns : List Pattern) (values : List Term) :
    recordAll [] patterns values = gather (Pattern.bindings patterns values) := by
  rw [recordAll_eq_foldl, foldl_bind_eq_gather]

end Bindings

/-- Values behind the last pattern are not bound. -/
theorem Pattern.bindings_append {patterns : List Pattern} {us : List Term}
    (h : patterns.length ≤ us.length) (after : List Term) :
    bindings patterns (us ++ after) = bindings patterns us := by
  have hzip : List.zipWith binding? patterns (us ++ after) = List.zipWith binding? patterns us := by
    induction patterns generalizing us with
    | nil => rfl
    | cons p patterns ih =>
      cases us with
      | nil => simp at h
      | cons u us =>
        rw [List.cons_append, List.zipWith_cons_cons, List.zipWith_cons_cons,
          ih (by simpa using h)]
  unfold bindings
  rw [hzip]

/-- A value is accepted by the pattern that admits it, and recorded. -/
theorem Attempt.accept?_eq (a : Attempt) (value : Term) :
    a.accept? value
      = if a.pending.Admits value then some (Bindings.record a.bound a.pending value)
        else none := by
  obtain ⟨bound, pending, patterns, args, body⟩ := a
  cases pending with
  | literal t =>
    by_cases h : t = value.strip
    · simp [Attempt.accept?, Pattern.Admits, Bindings.record, Pattern.binding?, h]
    · simp [Attempt.accept?, Pattern.Admits, h]
  | wildcard => simp [Attempt.accept?, Pattern.Admits, Bindings.record, Pattern.binding?]
  | var name => simp [Attempt.accept?, Pattern.Admits, Bindings.record, Pattern.binding?]

theorem Attempt.resume_of_admits {a : Attempt} {value : Term} (h : a.pending.Admits value)
    (args : List Term) (others : List Clause) :
    a.resume args others value = a.advance (Bindings.record a.bound a.pending value) others := by
  simp only [Attempt.resume, Attempt.accept?_eq, if_pos h]

theorem Attempt.resume_of_not_admits {a : Attempt} {value : Term} (h : ¬ a.pending.Admits value)
    (args : List Term) (others : List Clause) :
    a.resume args others value = Progress.start args others := by
  simp only [Attempt.resume, Attempt.accept?_eq, if_neg h]

/-! ## Values at their positions -/

/-- Each term stands in a relation to the value at its position. -/
def Pointwise (E : Term → Term → Prop) (terms values : List Term) : Prop :=
  ∀ (i : Nat) (t v : Term), terms[i]? = some t → values[i]? = some v → E t v

namespace Pointwise

variable {E : Term → Term → Prop}

theorem nil (terms : List Term) : Pointwise E terms [] := by
  intro i t v _ hv
  simp at hv

theorem cons {t v : Term} {terms values : List Term} (h : E t v)
    (hrest : Pointwise E terms values) : Pointwise E (t :: terms) (v :: values) := by
  intro i t' v' ht hv
  cases i with
  | zero =>
    cases ht
    cases hv
    exact h
  | succ i => exact hrest i t' v' (by simpa using ht) (by simpa using hv)

theorem head {t v : Term} {terms values : List Term} (h : Pointwise E (t :: terms) (v :: values)) :
    E t v :=
  h 0 t v rfl rfl

theorem tail {t v : Term} {terms values : List Term} (h : Pointwise E (t :: terms) (v :: values)) :
    Pointwise E terms values := by
  intro i t' v' ht hv
  exact h (i + 1) t' v' (by simpa using ht) (by simpa using hv)

theorem of_isPrefix {terms us vs : List Term} (h : Pointwise E terms vs) (hinitial : us <+: vs) :
    Pointwise E terms us := by
  intro i t v ht hv
  obtain ⟨after, rfl⟩ := hinitial
  refine h i t v ht ?_
  rw [List.getElem?_append_left (List.getElem?_eq_some_iff.1 hv).1]
  exact hv

/-- What holds of every value that a term may have holds of all the values. -/
theorem forall_values {Q : Term → Prop} {terms values : List Term} (h : Pointwise E terms values)
    (hlen : values.length ≤ terms.length) (hE : ∀ t ∈ terms, ∀ v, E t v → Q v) :
    ∀ v ∈ values, Q v := by
  intro v hv
  obtain ⟨i, hi, rfl⟩ := List.getElem_of_mem hv
  have hi' : i < terms.length := by omega
  exact hE terms[i] (List.getElem_mem hi') _
    (h i _ _ (List.getElem?_eq_getElem hi') (List.getElem?_eq_getElem hi))

/-- If no term has two values, the shorter of two lists of values is a prefix of the longer. -/
theorem prefix_of_length_le (hE : ∀ t v w, E t v → E t w → v = w) {terms us vs : List Term}
    (hus : Pointwise E terms us) (hvs : Pointwise E terms vs) (hle : us.length ≤ vs.length)
    (hterms : vs.length ≤ terms.length) : us <+: vs := by
  induction us generalizing terms vs with
  | nil => exact List.nil_prefix
  | cons u us ih =>
    obtain ⟨v, vs, rfl⟩ : ∃ v vs', vs = v :: vs' :=
      List.exists_cons_of_length_pos (by simp only [List.length_cons] at hle; omega)
    obtain ⟨t, terms, rfl⟩ : ∃ t terms', terms = t :: terms' :=
      List.exists_cons_of_length_pos (by simp only [List.length_cons] at hterms; omega)
    simp only [List.length_cons] at hle hterms
    -- Both first values are values of the same term.
    rw [hE t u v hus.head hvs.head, List.cons_prefix_cons]
    exact ⟨rfl, ih hus.tail hvs.tail (by omega) (by omega)⟩

end Pointwise

/-! ## How far a clause gets -/

/-- Every pattern lets the value at its position pass. -/
inductive Admitted : List Pattern → List Term → Prop where
  | nil (values : List Term) : Admitted [] values
  | cons {p : Pattern} {v : Term} {patterns : List Pattern} {values : List Term} :
      p.Admits v → Admitted patterns values → Admitted (p :: patterns) (v :: values)

theorem admitted_iff {patterns : List Pattern} {values : List Term} :
    Admitted patterns values ↔
      patterns.length ≤ values.length ∧
        ∀ (i : Nat) (p : Pattern) (v : Term),
          patterns[i]? = some p → values[i]? = some v → p.Admits v := by
  constructor
  · intro h
    induction h with
    | nil values => simp
    | cons hp _ ih =>
      refine ⟨by simpa using ih.1, ?_⟩
      intro i p v hi hv
      cases i with
      | zero =>
        cases hi
        cases hv
        exact hp
      | succ i => exact ih.2 i p v (by simpa using hi) (by simpa using hv)
  · rintro ⟨hlen, h⟩
    induction patterns generalizing values with
    | nil => exact .nil values
    | cons p patterns ih =>
      obtain ⟨v, values, rfl⟩ : ∃ v values', values = v :: values' :=
        List.exists_cons_of_length_pos (by simp only [List.length_cons] at hlen; omega)
      refine .cons (h 0 p v rfl rfl) (ih (by simpa using hlen) ?_)
      intro i q w hi hw
      exact h (i + 1) q w (by simpa using hi) (by simpa using hw)

/-- The values reach exactly to the first pattern that turns one away. -/
inductive Mismatch : List Pattern → List Term → Prop where
  | here {p : Pattern} {v : Term} (patterns : List Pattern) :
      ¬ p.Admits v → Mismatch (p :: patterns) [v]
  | there {p : Pattern} {v : Term} {patterns : List Pattern} {values : List Term} :
      p.Admits v → Mismatch patterns values → Mismatch (p :: patterns) (v :: values)

namespace Mismatch

/-- If some pattern turns its value away, there is a first one that does. -/
theorem of_getElem? {patterns : List Pattern} {values : List Term} {i : Nat} {p : Pattern}
    {v : Term} (hp : patterns[i]? = some p) (hv : values[i]? = some v) (h : ¬ p.Admits v) :
    ∃ us, us <+: values ∧ Mismatch patterns us := by
  induction patterns generalizing values i with
  | nil => simp at hp
  | cons q patterns ih =>
    cases values with
    | nil => simp at hv
    | cons w values =>
      by_cases hq : q.Admits w
      · -- The pattern in front lets its value pass, so the one that does not stands behind it.
        cases i with
        | zero =>
          cases hp
          cases hv
          exact absurd hq h
        | succ i =>
          obtain ⟨us, hinitial, hus⟩ := ih (by simpa using hp) (by simpa using hv)
          exact ⟨w :: us, List.cons_prefix_cons.2 ⟨rfl, hinitial⟩, .there hq hus⟩
      · exact ⟨[w], List.cons_prefix_cons.2 ⟨rfl, List.nil_prefix⟩, .here patterns hq⟩

theorem exists_getElem? {patterns : List Pattern} {values : List Term}
    (h : Mismatch patterns values) :
    ∃ (i : Nat) (p : Pattern) (v : Term),
      patterns[i]? = some p ∧ values[i]? = some v ∧ ¬ p.Admits v := by
  induction h with
  | here patterns h => exact ⟨0, _, _, rfl, rfl, h⟩
  | there _ _ ih =>
    obtain ⟨i, p, v, hp, hv, h⟩ := ih
    exact ⟨i + 1, p, v, by simpa using hp, by simpa using hv, h⟩

theorem exists_cons {patterns : List Pattern} {values : List Term} (h : Mismatch patterns values) :
    ∃ v rest, values = v :: rest := by
  cases h with
  | here patterns h => exact ⟨_, _, rfl⟩
  | there _ _ => exact ⟨_, _, rfl⟩

theorem length_le {patterns : List Pattern} {values : List Term} (h : Mismatch patterns values) :
    values.length ≤ patterns.length := by
  induction h with
  | here patterns h => simp
  | there _ _ ih => simpa using ih

/-- Before the last value, every pattern lets its value pass. -/
theorem admits {patterns : List Pattern} {values : List Term} (h : Mismatch patterns values)
    {j : Nat} (hj : j + 1 < values.length) {p : Pattern} {v : Term} (hp : patterns[j]? = some p)
    (hv : values[j]? = some v) : p.Admits v := by
  induction h generalizing j with
  | here patterns h => simp at hj
  | there hadmits _ ih =>
    cases j with
    | zero =>
      cases hp
      cases hv
      exact hadmits
    | succ j => exact ih (by simpa using hj) (by simpa using hp) (by simpa using hv)

end Mismatch

/-! ## What a call comes to -/

/-- A call of `args` that has got so far comes to a body, when each argument it asks for is handed
    a value that `E` gives it. -/
inductive Progress.Leads (E : Term → Term → Prop) (args : List Term) : Progress → Term → Prop where
  | matched (body : Term) : Leads E args (.matched body) body
  | need {arg value body : Term} {attempt : Attempt} {others : List Clause} :
      E arg value → Leads E args (attempt.resume args others value) body →
      Leads E args (.need arg attempt others) body

section

variable {E : Term → Term → Prop} {args : List Term}

/-! ## From the selected clause to the call -/

/-- A clause all of whose patterns admit their values comes to its body. -/
theorem leads_of_admits {p : Pattern} {patterns : List Pattern} {v : Term} {values rest : List Term}
    (hadmits : Admitted (p :: patterns) (v :: values))
    (hlen : patterns.length ≤ rest.length) (hE : Pointwise E rest values) (bound : Bindings)
    (body : Term) (others : List Clause) :
    Progress.Leads E args
      ((Attempt.mk bound p patterns rest body).resume args others v)
      (Bindings.apply (Bindings.recordAll bound (p :: patterns) (v :: values)) body) := by
  induction patterns generalizing p v values rest bound with
  | nil =>
    cases hadmits with
    | cons hp _ =>
      rw [Attempt.resume_of_admits hp]
      exact .matched _
  | cons q patterns ih =>
    obtain ⟨hp, hrest⟩ : p.Admits v ∧ Admitted (q :: patterns) values := by
      cases hadmits with
      | cons hp hrest => exact ⟨hp, hrest⟩
    obtain ⟨w, values, rfl⟩ : ∃ w values', values = w :: values' := by
      cases hrest with
      | cons _ _ => exact ⟨_, _, rfl⟩
    obtain ⟨a, rest, rfl⟩ : ∃ a rest', rest = a :: rest' :=
      List.exists_cons_of_length_pos (by simp only [List.length_cons] at hlen; omega)
    -- The attempt asks for the next argument and is handed the next value.
    rw [Attempt.resume_of_admits hp]
    refine .need hE.head ?_
    exact ih hrest (by simpa using hlen) hE.tail (Bindings.record bound p v)

/-- A clause that turns a value away leaves the call to the clauses behind it. -/
theorem leads_of_mismatch {p : Pattern} {patterns : List Pattern} {v : Term}
    {values rest : List Term} (hmismatch : Mismatch (p :: patterns) (v :: values))
    (hlen : patterns.length ≤ rest.length) (hE : Pointwise E rest values) (bound : Bindings)
    (body : Term) {others : List Clause} {result : Term}
    (hothers : Progress.Leads E args (Progress.start args others) result) :
    Progress.Leads E args ((Attempt.mk bound p patterns rest body).resume args others v)
      result := by
  induction patterns generalizing p v values rest bound with
  | nil =>
    cases hmismatch with
    | here _ h =>
      rw [Attempt.resume_of_not_admits h]
      exact hothers
    | there _ h => cases h
  | cons q patterns ih =>
    cases hmismatch with
    | here _ h =>
      rw [Attempt.resume_of_not_admits h]
      exact hothers
    | there hp h =>
      -- The value that is turned away stands further on, so the next argument is asked for.
      obtain ⟨w, values, rfl⟩ := h.exists_cons
      obtain ⟨a, rest, rfl⟩ : ∃ a rest', rest = a :: rest' :=
        List.exists_cons_of_length_pos (by simp only [List.length_cons] at hlen; omega)
      rw [Attempt.resume_of_admits hp]
      refine .need hE.head ?_
      exact ih h (by simpa using hlen) hE.tail (Bindings.record bound p v)

/-- What taking up a clause comes to. -/
theorem start_cons_of_length_le {c : Clause} {p : Pattern} {patterns : List Pattern} {arg : Term}
    {rest : List Term} (hparams : c.params = p :: patterns) (hlen : patterns.length ≤ rest.length)
    (others : List Clause) :
    Progress.start (arg :: rest) (c :: others)
      = .need arg ⟨[], p, patterns, rest, c.body⟩ others := by
  simp only [Progress.start, hparams, if_pos hlen]

/-- A clause with more parameters than there are arguments is not taken up. -/
theorem start_cons_of_lt {c : Clause} (h : args.length < c.params.length) (others : List Clause) :
    Progress.start args (c :: others) = Progress.start args others := by
  rcases hparams : c.params with _ | ⟨p, patterns⟩
  · rw [hparams] at h
    simp at h
  · cases args with
    | nil => simp only [Progress.start, hparams]
    | cons arg rest =>
      have hlt : ¬ patterns.length ≤ rest.length := by
        rw [hparams] at h
        simp only [List.length_cons] at h
        omega
      simp only [Progress.start, hparams, if_neg hlt]

/-- A clause that is rejected leaves the call to the clauses behind it. -/
theorem Clause.Rejects.leads {d : Clause} {values : List Term} (h : d.Rejects args.length values)
    (hE : Pointwise E args values) {others : List Clause} {result : Term}
    (hothers : Progress.Leads E args (Progress.start args others) result) :
    Progress.Leads E args (Progress.start args (d :: others)) result := by
  by_cases hlt : args.length < d.params.length
  · rw [start_cons_of_lt hlt]
    exact hothers
  · -- The clause is taken up, and asks for values up to the first one that it turns away.
    obtain ⟨i, p, v, hp, hv, hpv⟩ := h.resolve_left hlt
    obtain ⟨us, hinitial, hus⟩ := Mismatch.of_getElem? hp hv hpv
    rcases hparams : d.params with _ | ⟨q, patterns⟩
    · rw [hparams] at hp
      simp at hp
    · rw [hparams] at hus hlt
      obtain ⟨w, us, rfl⟩ := hus.exists_cons
      obtain ⟨arg, rest, rfl⟩ : ∃ arg rest', args = arg :: rest' :=
        List.exists_cons_of_length_pos (by simp only [List.length_cons] at hlt; omega)
      have hlen : patterns.length ≤ rest.length := by
        simp only [List.length_cons] at hlt
        omega
      rw [start_cons_of_length_le hparams hlen]
      have hus' := hE.of_isPrefix hinitial
      exact .need hus'.head (leads_of_mismatch hus hlen hus'.tail [] d.body hothers)

/-- The call comes to the body of the clause that is selected. -/
theorem Selects.leads {earlier later : List Clause} {c : Clause} {values : List Term}
    (h : Selects earlier c args.length values) (hE : Pointwise E args values) :
    Progress.Leads E args (Progress.start args (earlier ++ c :: later)) (c.instantiate values) := by
  obtain ⟨hrejected, haccepted, -⟩ := h
  -- On the clauses before the selected one: each of them passes the call on.
  induction earlier with
  | nil =>
    have hargs := haccepted.1
    have hadmits := admitted_iff.2 haccepted.2
    unfold Clause.instantiate
    rw [← Bindings.recordAll_nil]
    rcases hparams : c.params with _ | ⟨p, patterns⟩
    · simp only [List.nil_append, Progress.start, hparams]
      exact .matched _
    · rw [hparams] at hargs hadmits
      obtain ⟨v, values, rfl⟩ : ∃ v values', values = v :: values' := by
        cases hadmits with
        | cons _ _ => exact ⟨_, _, rfl⟩
      obtain ⟨arg, rest, rfl⟩ : ∃ arg rest', args = arg :: rest' :=
        List.exists_cons_of_length_pos (by simp only [List.length_cons] at hargs; omega)
      have hlen : patterns.length ≤ rest.length := by simpa using hargs
      rw [List.nil_append, start_cons_of_length_le hparams hlen]
      exact .need hE.head (leads_of_admits hadmits hlen hE.tail [] c.body later)
  | cons d earlier ih =>
    have hd := hrejected d List.mem_cons_self
    exact hd.leads hE (ih fun d' hd' => hrejected d' (List.mem_cons_of_mem d hd'))

/-! ## From the call to the selected clause -/

/-- An attempt that goes on either admits all the values it asks for and comes to its body, or
    turns one away and leaves the call to the clauses behind it. -/
theorem Progress.Leads.of_resume {p : Pattern} {patterns : List Pattern} {v : Term}
    {rest : List Term} {bound : Bindings} {body result : Term} {others : List Clause}
    (hlen : patterns.length ≤ rest.length)
    (h : Progress.Leads E args ((Attempt.mk bound p patterns rest body).resume args others v)
      result) :
    (∃ values, values.length = patterns.length ∧ Pointwise E rest values ∧
        Admitted (p :: patterns) (v :: values) ∧
        result = Bindings.apply (Bindings.recordAll bound (p :: patterns) (v :: values)) body) ∨
      ∃ values, Pointwise E rest values ∧ Mismatch (p :: patterns) (v :: values) ∧
        Progress.Leads E args (Progress.start args others) result := by
  induction patterns generalizing p v rest bound with
  | nil =>
    by_cases hp : p.Admits v
    · rw [Attempt.resume_of_admits hp] at h
      cases h
      exact .inl ⟨[], rfl, .nil rest, .cons hp (.nil []), rfl⟩
    · rw [Attempt.resume_of_not_admits hp] at h
      exact .inr ⟨[], .nil rest, .here [] hp, h⟩
  | cons q patterns ih =>
    by_cases hp : p.Admits v
    · obtain ⟨a, rest, rfl⟩ : ∃ a rest', rest = a :: rest' :=
        List.exists_cons_of_length_pos (by simp only [List.length_cons] at hlen; omega)
      rw [Attempt.resume_of_admits hp] at h
      cases h with
      | @need _ w _ _ _ hw hrest =>
        -- Whatever becomes of the patterns behind this one, its value is put in front.
        rcases ih (by simpa using hlen) hrest with ⟨values, hvalues, hE, hadmits, hresult⟩ |
          ⟨values, hE, hmismatch, hothers⟩
        · exact .inl ⟨w :: values, by simp [hvalues], hE.cons hw, .cons hp hadmits, hresult⟩
        · exact .inr ⟨w :: values, hE.cons hw, .there hp hmismatch, hothers⟩
    · rw [Attempt.resume_of_not_admits hp] at h
      exact .inr ⟨[], .nil _, .here _ hp, h⟩

end

/-! ## More values than a clause has seen -/

namespace Clause

variable {c : Clause} {n : Nat} {us vs : List Term}

theorem getElem?_of_isPrefix (hinitial : us <+: vs) {i : Nat} (hi : i < us.length) :
    vs[i]? = us[i]? := by
  obtain ⟨after, rfl⟩ := hinitial
  exact List.getElem?_append_left hi

theorem Rejects.of_isPrefix (h : c.Rejects n us) (hinitial : us <+: vs) : c.Rejects n vs := by
  rcases h with h | ⟨i, p, v, hp, hv, hpv⟩
  · exact .inl h
  · refine .inr ⟨i, p, v, hp, ?_, hpv⟩
    rw [getElem?_of_isPrefix hinitial (List.getElem?_eq_some_iff.1 hv).1]
    exact hv

theorem Accepts.of_isPrefix (h : c.Accepts n us) (hinitial : us <+: vs) : c.Accepts n vs := by
  obtain ⟨hn, hlen, hadmits⟩ := h
  refine ⟨hn, hlen.trans hinitial.length_le, ?_⟩
  intro i p v hp hv
  have hi : i < us.length := (List.getElem?_eq_some_iff.1 hp).1.trans_le hlen
  rw [getElem?_of_isPrefix hinitial hi] at hv
  exact hadmits i p v hp hv

/-- Values behind the last parameter are not put in anywhere. -/
theorem instantiate_of_isPrefix (hlen : c.params.length ≤ us.length) (hinitial : us <+: vs) :
    c.instantiate vs = c.instantiate us := by
  obtain ⟨after, rfl⟩ := hinitial
  unfold instantiate
  rw [Pattern.bindings_append hlen]

end Clause

namespace Selects

variable {E : Term → Term → Prop} {args : List Term}

/-- A clause that accepts at once is selected, with as many values as it has parameters. -/
theorem of_accepts {c : Clause} {n : Nat} {values : List Term} (h : c.Accepts n values)
    (hlen : values.length = c.params.length) : Selects [] c n values := by
  refine ⟨by simp, h, ?_⟩
  intro i hi
  refine ⟨c, by simp, h.1, hlen ▸ hi, ?_⟩
  intro j hj p v hp hv
  exact h.2.2 j p v hp hv

/-- A clause with too many parameters makes no difference to the selection. -/
theorem cons_of_lt {d c : Clause} {earlier : List Clause} {n : Nat} {values : List Term}
    (h : Selects earlier c n values) (hd : n < d.params.length) :
    Selects (d :: earlier) c n values := by
  refine ⟨?_, h.accepted, ?_⟩
  · intro d' hd'
    rcases List.mem_cons.1 hd' with rfl | hd'
    · exact .inl hd
    · exact h.rejected d' hd'
  · intro i hi
    obtain ⟨d', hd', hneeds⟩ := h.needed i hi
    exact ⟨d', List.mem_cons_of_mem d hd', hneeds⟩

/-- A clause that turned a value away comes before the selection made without it. The values
    needed are those that it asked for, or those that the clauses behind it asked for, whichever
    are more: the others are a prefix of them. -/
theorem cons_of_mismatch (hE : ∀ t v w, E t v → E t w → v = w) {d c : Clause}
    {earlier : List Clause} {us values : List Term} (hd : d.params.length ≤ args.length)
    (hus : Pointwise E args us) (hmismatch : Mismatch d.params us)
    (h : Selects earlier c args.length values) (hvalues : Pointwise E args values)
    (hlen : values.length ≤ args.length) :
    ∃ ws, ws.length ≤ args.length ∧ Pointwise E args ws ∧
      Selects (d :: earlier) c args.length ws ∧ c.instantiate ws = c.instantiate values := by
  have huslen : us.length ≤ args.length := hmismatch.length_le.trans hd
  have hrejects : d.Rejects args.length us := .inr hmismatch.exists_getElem?
  have hneeds : ∀ i < us.length, d.Needs args.length us i := by
    intro i hi
    refine ⟨hd, hi.trans_le hmismatch.length_le, ?_⟩
    intro j hj p v hp hv
    exact hmismatch.admits (by omega) hp hv
  rcases Nat.le_total us.length values.length with hle | hle
  · -- The clauses behind `d` have looked at all that `d` has looked at.
    have hinitial : us <+: values := hus.prefix_of_length_le hE hvalues hle hlen
    refine ⟨values, hlen, hvalues, ⟨?_, h.accepted, ?_⟩, rfl⟩
    · intro d' hd'
      rcases List.mem_cons.1 hd' with rfl | hd'
      · exact hrejects.of_isPrefix hinitial
      · exact h.rejected d' hd'
    · intro i hi
      obtain ⟨d', hd', hneeds'⟩ := h.needed i hi
      exact ⟨d', List.mem_cons_of_mem d hd', hneeds'⟩
  · -- `d` alone has looked at more arguments than all the clauses behind it.
    have hinitial : values <+: us := hvalues.prefix_of_length_le hE hus hle huslen
    refine ⟨us, huslen, hus, ⟨?_, h.accepted.of_isPrefix hinitial, ?_⟩,
      Clause.instantiate_of_isPrefix h.accepted.2.1 hinitial⟩
    · intro d' hd'
      rcases List.mem_cons.1 hd' with rfl | hd'
      · exact hrejects
      · exact (h.rejected d' hd').of_isPrefix hinitial
    · intro i hi
      exact ⟨d, by simp, hneeds i hi⟩

end Selects

/-- The body that a call comes to is that of the clause that is selected, provided that no
    argument has two values. -/
theorem Progress.Leads.selects {E : Term → Term → Prop} {args : List Term}
    (hE : ∀ t v w, E t v → E t w → v = w) {clauses : List Clause} {result : Term}
    (h : Progress.Leads E args (Progress.start args clauses) result) :
    ∃ earlier c later values, clauses = earlier ++ c :: later ∧ values.length ≤ args.length ∧
      Pointwise E args values ∧ Selects earlier c args.length values ∧
      result = c.instantiate values := by
  induction clauses with
  | nil => cases h
  | cons c others ih =>
    by_cases hlt : args.length < c.params.length
    · rw [start_cons_of_lt hlt] at h
      obtain ⟨earlier, c', later, values, rfl, hlen, hvalues, hselects, hresult⟩ := ih h
      exact ⟨c :: earlier, c', later, values, rfl, hlen, hvalues, hselects.cons_of_lt hlt, hresult⟩
    · have hargs : c.params.length ≤ args.length := by omega
      rcases hparams : c.params with _ | ⟨p, patterns⟩
      · -- A clause without parameters matches without a look at the arguments.
        simp only [Progress.start, hparams] at h
        cases h
        refine ⟨[], c, others, [], rfl, Nat.zero_le _, .nil args, ?_, ?_⟩
        · exact .of_accepts ⟨hargs, by simp [hparams], by simp [hparams]⟩ (by simp [hparams])
        · simp [Clause.instantiate, hparams, Pattern.bindings, Bindings.gather, Bindings.apply]
      · have hlen : patterns.length + 1 ≤ args.length := by simpa [hparams] using hargs
        obtain ⟨arg, rest, rfl⟩ : ∃ arg rest', args = arg :: rest' :=
          List.exists_cons_of_length_pos (by omega)
        have hlen : patterns.length ≤ rest.length := by simpa using hlen
        rw [start_cons_of_length_le hparams hlen] at h
        cases h with
        | @need _ v _ _ _ hv hrest =>
          -- The clause matches and is the selected one, or the selection is made behind it.
          rcases hrest.of_resume hlen with ⟨values, hvalues, hpoint, hadmits, hresult⟩ |
            ⟨values, hpoint, hmismatch, hothers⟩
          · have haccepts : c.Accepts (arg :: rest).length (v :: values) :=
              ⟨hargs, admitted_iff.1 (hparams ▸ hadmits)⟩
            refine ⟨[], c, others, v :: values, rfl, by simpa [hvalues] using hlen,
              hpoint.cons hv, .of_accepts haccepts (by simp [hvalues, hparams]), ?_⟩
            unfold Clause.instantiate
            rw [← Bindings.recordAll_nil, hparams]
            exact hresult
          · obtain ⟨earlier, c', later, values', rfl, hlen', hvalues', hselects, hresult⟩ :=
              ih hothers
            obtain ⟨ws, hws, hpoint', hselects', hsame⟩ := hselects.cons_of_mismatch hE hargs
              (hpoint.cons hv) (hparams ▸ hmismatch) hvalues' hlen'
            exact ⟨c :: earlier, c', later, ws, rfl, hws, hpoint', hselects', hsame ▸ hresult⟩

end Clausal
