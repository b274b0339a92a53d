/-
  Clausal.Proofs.Summaries

  What a summary says of its records, and that it says the same in whatever order they come.

  Records are counted one by one in a ledger (`Ledger`). How often each name was called is a table
  there, and which names were called is a set beside it. A set is listed in any order, and the
  tallies of its names are put in order by any sort. All the same there is only one list that can
  come of it: the names of the tallies are distinct, so of any two of them one comes before the
  other (`Tally.Before`).

    * `Ledger.enter_of` and `Ledger.ofRecords_eq`: the table and the set stay in step, record by
      record;
    * `Summary.Adds.unique`: there is at most one summary that adds up;
    * `Summary.counts_in_unique_order`: the summary adds up, for every order of the records and
      every way of closing the ledger.
-/
import Clausal.Archive.Summary
import Clausal.Proofs.Repeats
import Mathlib.Algebra.BigOperators.Group.Finset.Basic
import Mathlib.Algebra.GroupWithZero.Nat
import Mathlib.Order.Bounds.Basic

namespace Clausal

/-! ## The order of tallies -/

namespace Tally

/-- One tally comes before another: it counts more calls, or as many with a smaller name. -/
def Before (a b : Tally) : Prop := b.calls < a.calls ∨ a.calls = b.calls ∧ a.name < b.name

instance (a b : Tally) : Decidable (a.Before b) := inferInstanceAs (Decidable (_ ∨ _))

theorem precedes_iff {a b : Tally} : a.precedes b = true ↔ ¬ b.Before a := by
  rw [precedes, Before]
  split
  · rename_i hcalls
    simp only [hcalls, decide_eq_true_iff, Nat.lt_irrefl, false_or, true_and,
      String.not_lt]
  · rename_i hcalls
    rw [decide_eq_true_iff]
    omega

theorem Before.asymm {a b : Tally} (h : a.Before b) : ¬ b.Before a := by
  rintro (h' | ⟨h', hname'⟩) <;> rcases h with h | ⟨h, hname⟩
  · omega
  · omega
  · omega
  · exact String.lt_asymm hname hname'

/-- Of two tallies of different names, one comes before the other. -/
theorem before_of_not_before {a b : Tally} (hname : a.name ≠ b.name) (h : ¬ b.Before a) :
    a.Before b := by
  simp only [Before, not_or, not_and, String.not_lt] at h
  obtain ⟨hcalls, hnames⟩ := h
  by_cases heq : b.calls = a.calls
  · refine .inr ⟨heq.symm, ?_⟩
    rw [← String.not_le]
    exact fun hle => hname (String.le_antisymm (hnames heq) hle)
  · exact .inl (by omega)

theorem precedes_trans (a b c : Tally) (h : a.precedes b = true) (h' : b.precedes c = true) :
    a.precedes c = true := by
  simp only [precedes_iff, Before, not_or, not_and, String.not_lt] at h h' ⊢
  obtain ⟨hcalls, hname⟩ := h
  obtain ⟨hcalls', hname'⟩ := h'
  refine ⟨by omega, fun heq => ?_⟩
  exact String.le_trans (hname (by omega)) (hname' (by omega))

theorem precedes_total (a b : Tally) : (a.precedes b || b.precedes a) = true := by
  rw [Bool.or_eq_true, precedes_iff, precedes_iff]
  by_cases h : b.Before a
  · exact .inr h.asymm
  · exact .inl h

end Tally

/-! ## Counting one by one -/

/-- Whether a record tells of a call of the function of a given name. -/
def Record.isCallOf (name : String) (r : Record) : Bool := r.kind = .call && r.name = name

/-- What has been counted so far: the calls, the failures, the greatest depth, the calls of each
    name, and the names that were called. -/
structure Ledger where
  calls : Nat
  failures : Nat
  maxDepth : Int
  counts : String → Nat
  seen : Finset String

namespace Ledger

def empty : Ledger := ⟨0, 0, 0, fun _ => 0, ∅⟩

/-- Counts one more call of a function. -/
def call (l : Ledger) (name : String) : Ledger :=
  { l with
    calls := l.calls + 1
    counts := Function.update l.counts name (l.counts name + 1)
    seen := insert name l.seen }

def deepen (l : Ledger) (depth : Int) : Ledger :=
  if l.maxDepth < depth then { l with maxDepth := depth } else l

/-- Counts one more record. -/
def enter (l : Ledger) (r : Record) : Ledger :=
  match r.kind with
  | .call => (l.call r.name).deepen r.depth
  | .fail => { l with failures := l.failures + 1 }.deepen r.depth
  | _ => l.deepen r.depth

def ofRecords (records : List Record) : Ledger := records.foldl enter empty

/-- The tallies of some names. -/
def tallies (l : Ledger) (names : List String) : List Tally :=
  names.map fun name => ⟨name, l.counts name⟩

/-- A ledger may be closed as a summary. The names are listed in any order, and any list of their
    tallies will do in which none comes before one that stands further to the front. -/
structure ClosesAs (l : Ledger) (s : Summary) : Prop where
  calls : s.calls = l.calls
  failures : s.failures = l.failures
  maxDepth : s.maxDepth = l.maxDepth
  functions : ∃ names : List String, names.Nodup ∧ names.toFinset = l.seen ∧
    s.functions.Perm (l.tallies names) ∧ s.functions.Pairwise fun a b => ¬ b.Before a

open Summary (calledNames)

/-- What a ledger should hold once some records are counted. -/
def of (records : List Record) : Ledger where
  calls := (calledNames records).length
  failures := records.countP (·.kind = .fail)
  maxDepth := (records.map (·.depth)).foldl max 0
  counts name := (calledNames records).count name
  seen := (calledNames records).toFinset

theorem calledNames_concat (records : List Record) (r : Record) :
    calledNames (records ++ [r])
      = calledNames records ++ if r.kind = .call then [r.name] else [] := by
  by_cases hcall : r.kind = .call
  · simp [calledNames, hcall]
  · simp [calledNames, hcall]

theorem deepen_eq (l : Ledger) (depth : Int) :
    l.deepen depth = { l with maxDepth := max l.maxDepth depth } := by
  rw [deepen]
  split
  · rename_i hlt
    rw [max_eq_right (by omega)]
  · rename_i hle
    rw [max_eq_left (by omega)]

/-- A record changes the table and the set together. -/
theorem enter_of (records : List Record) (r : Record) :
    (of records).enter r = of (records ++ [r]) := by
  simp only [of, calledNames_concat, List.countP_append, List.map_append, List.foldl_append]
  cases hkind : r.kind with
  | call =>
    have hcounts : Function.update (fun name => (calledNames records).count name) r.name
        ((calledNames records).count r.name + 1)
        = fun name => (calledNames records ++ [r.name]).count name := by
      funext name
      by_cases hname : name = r.name
      · simp [hname]
      · simp [hname, Ne.symm hname]
    simp [enter, hkind, call, deepen_eq, hcounts]
  | fail => simp [enter, hkind, deepen_eq]
  | result => simp [enter, hkind, deepen_eq]
  | other word => simp [enter, hkind, deepen_eq]

theorem ofRecords_eq (records : List Record) : ofRecords records = of records := by
  induction records using List.reverseRecOn with
  | nil => rfl
  | append_singleton records r ih =>
    rw [ofRecords, List.foldl_append, List.foldl_cons, List.foldl_nil, ← ofRecords, ih, enter_of]

end Ledger

/-! ## Summaries that add up -/

namespace Summary

/-- A summary says of some records what is to be said of them. -/
structure Adds (records : List Record) (s : Summary) : Prop where
  calls : s.calls = records.countP (·.kind = .call)
  total : s.calls = (s.functions.map Tally.calls).sum
  failures : s.failures = records.countP (·.kind = .fail)
  deepest : IsGreatest (insert 0 {d | ∃ r ∈ records, r.depth = d}) s.maxDepth
  named : ∀ name, name ∈ s.functions.map Tally.name ↔ ∃ r ∈ records, r.kind = .call ∧ r.name = name
  once : (s.functions.map Tally.name).Nodup
  counted : ∀ t ∈ s.functions, t.calls = records.countP (Record.isCallOf t.name)
  sorted : s.functions.Pairwise Tally.Before

theorem Adds.mem_functions_iff {records : List Record} {s : Summary} (h : s.Adds records)
    {t : Tally} : t ∈ s.functions ↔ (∃ r ∈ records, r.kind = .call ∧ r.name = t.name) ∧
      t.calls = records.countP (Record.isCallOf t.name) := by
  rw [← h.named, List.mem_map]
  constructor
  · exact fun ht => ⟨⟨t, ht, rfl⟩, h.counted t ht⟩
  · rintro ⟨⟨u, hu, hname⟩, hcalls⟩
    have hcalls' := h.counted u hu
    rw [hname, ← hcalls] at hcalls'
    obtain ⟨name, calls⟩ := t
    obtain rfl : u = ⟨name, calls⟩ := by cases u; simp_all
    exact hu

/-- Two summaries that add up have the same tallies, and there is only one order for them. -/
theorem Adds.unique {records : List Record} {s s' : Summary} (h : s.Adds records)
    (h' : s'.Adds records) : s = s' := by
  have hperm : s.functions.Perm s'.functions := by
    refine (List.perm_ext_iff_of_nodup h.once.of_map h'.once.of_map).2 fun t => ?_
    rw [h.mem_functions_iff, h'.mem_functions_iff]
  have hfunctions : s.functions = s'.functions := by
    refine hperm.eq_of_pairwise (fun a b _ _ hab hba => ?_) h.sorted h'.sorted
    exact absurd hba hab.asymm
  have hcalls := h.calls.trans h'.calls.symm
  have hfailures := h.failures.trans h'.failures.symm
  have hdepth := h.deepest.unique h'.deepest
  cases s
  cases s'
  simp_all

/-- Records in another order add up to the same. -/
theorem Adds.perm {records records' : List Record} {s : Summary} (h : s.Adds records)
    (hperm : records.Perm records') : s.Adds records' where
  calls := by rw [h.calls, hperm.countP_eq]
  total := h.total
  failures := by rw [h.failures, hperm.countP_eq]
  deepest := by simpa only [hperm.mem_iff] using h.deepest
  named := by simpa only [hperm.mem_iff] using h.named
  once := h.once
  counted t ht := by rw [h.counted t ht, hperm.countP_eq]
  sorted := h.sorted

end Summary

/-! ## Closing a ledger -/

namespace Ledger

open Summary (calledNames)

theorem calls_of (records : List Record) :
    (of records).calls = records.countP (·.kind = .call) := by
  rw [of, calledNames, List.length_map, ← List.countP_eq_length_filter]

theorem counts_of (records : List Record) (name : String) :
    (of records).counts name = records.countP (Record.isCallOf name) := by
  show (calledNames records).countP (· == name) = _
  rw [calledNames, List.countP_map, List.countP_filter]
  refine List.countP_congr fun r _ => ?_
  simp [Record.isCallOf, and_comm]

theorem mem_seen_of {records : List Record} {name : String} :
    name ∈ (of records).seen ↔ ∃ r ∈ records, r.kind = .call ∧ r.name = name := by
  simp [of, calledNames, and_assoc]

/-- The calls of the names that were seen are all the calls there are. -/
theorem sum_counts_of (records : List Record) :
    ∑ name ∈ (of records).seen, (of records).counts name = (of records).calls :=
  List.sum_toFinset_count_eq_length (calledNames records)

theorem isGreatest_foldl_max (ds : List Int) (least : Int) :
    IsGreatest (insert least {d | d ∈ ds}) (ds.foldl max least) := by
  induction ds generalizing least with
  | nil => simp
  | cons d ds ih =>
    obtain ⟨hmem, hbound⟩ := ih (max least d)
    rw [List.foldl_cons]
    refine ⟨?_, ?_⟩
    · rcases hmem with hmem | hmem
      · rw [hmem]
        rcases max_choice least d with h | h <;> simp [h]
      · exact .inr (List.mem_cons_of_mem d hmem)
    · have hmax := hbound (Set.mem_insert (max least d) _)
      rintro x (rfl | hx)
      · exact (le_max_left _ _).trans hmax
      · rcases List.mem_cons.1 hx with rfl | hx
        · exact (le_max_right _ _).trans hmax
        · exact hbound (.inr hx)

/-- However a ledger is closed, what comes of it adds up. -/
theorem ClosesAs.adds {records : List Record} {s : Summary} (h : (of records).ClosesAs s) :
    s.Adds records := by
  obtain ⟨names, hnodup, hseen, hperm, hsorted⟩ := h.functions
  have hnames : (s.functions.map Tally.name).Perm names := by
    have hmap := hperm.map Tally.name
    simpa [tallies, Function.comp_def] using hmap
  have hcounted : ∀ t ∈ s.functions, t.calls = (of records).counts t.name := by
    intro t ht
    obtain ⟨name, -, rfl⟩ := List.mem_map.1 (hperm.mem_iff.1 ht)
    rfl
  have honce : (s.functions.map Tally.name).Nodup := hnames.nodup_iff.2 hnodup
  refine ⟨?_, ?_, h.failures, ?_, ?_, honce, ?_, ?_⟩
  · rw [h.calls, calls_of]
  · have hcalls := hperm.map Tally.calls
    rw [h.calls, ← sum_counts_of, ← hseen, List.sum_toFinset _ hnodup, hcalls.sum_eq, tallies,
      List.map_map]
    rfl
  · rw [h.maxDepth]
    simpa [of] using isGreatest_foldl_max (records.map (·.depth)) 0
  · intro name
    rw [hnames.mem_iff, ← List.mem_toFinset, hseen, mem_seen_of]
  · intro t ht
    rw [hcounted t ht, counts_of]
  · -- No two tallies have the same name, so none of them is as good as another.
    have hdistinct := List.pairwise_map.1 honce
    exact (hdistinct.and hsorted).imp fun h => Tally.before_of_not_before h.1 h.2

/-- The names in the order in which they were first called are one way to list them. -/
theorem closesAs_ofRecords (records : List Record) :
    (of records).ClosesAs (Summary.ofRecords records) where
  calls := rfl
  failures := rfl
  maxDepth := rfl
  functions := by
    refine ⟨(calledNames records).eraseDups, nodup_eraseDups _, ?_, List.mergeSort_perm _ _, ?_⟩
    · ext name
      simp [of]
    · have hsorted := List.pairwise_mergeSort Tally.precedes_trans Tally.precedes_total
        ((of records).tallies (calledNames records).eraseDups)
      exact hsorted.imp fun h => Tally.precedes_iff.1 h

end Ledger

namespace Summary

/-- **A summary adds up, in one order only.** Whatever the records are, their summary counts the
    calls and the failures among them and has their greatest depth, or zero; each function that was
    called is listed once, with the number of its calls, and those with more calls come first, then
    those with the smaller name. Records in any other order have the same summary. So has a ledger
    in which they are entered one by one, in whatever order its names are listed and however their
    tallies are sorted. -/
theorem counts_in_unique_order (records : List Record) :
    (ofRecords records).Adds records ∧
      (∀ records', records.Perm records' → ofRecords records' = ofRecords records) ∧
      ∀ s, (Ledger.ofRecords records).ClosesAs s ↔ s = ofRecords records := by
  have hadds (records : List Record) : (ofRecords records).Adds records :=
    (Ledger.closesAs_ofRecords records).adds
  refine ⟨hadds records, fun records' hperm => ?_, fun s => ?_⟩
  · exact (hadds records').unique ((hadds records).perm hperm)
  · rw [Ledger.ofRecords_eq]
    constructor
    · exact fun hs => hs.adds.unique (hadds records)
    · rintro rfl
      exact Ledger.closesAs_ofRecords records

/-- Calls of three functions, two of them called equally often, with a failure and a return between
    them. -/
def crossedRecords : List Record :=
  [⟨.call, 1, "g", [], "", ""⟩, ⟨.call, 2, "h", [], "", ""⟩, ⟨.call, 2, "f", [], "", ""⟩,
    ⟨.fail, 2, "h", [], "", "stop"⟩, ⟨.call, 3, "h", [], "", ""⟩, ⟨.result, 1, "g", [], "x", ""⟩]

/-- The ledger lists the names in the order of the alphabet, which is not that of the tallies. -/
theorem counts_in_unique_order_crossed :
    crossedRecords.Perm crossedRecords.reverse ∧
      (Ledger.ofRecords crossedRecords).ClosesAs ⟨4, 1, 3, [⟨"h", 2⟩, ⟨"f", 1⟩, ⟨"g", 1⟩]⟩ ∧
      ofRecords crossedRecords.reverse = ⟨4, 1, 3, [⟨"h", 2⟩, ⟨"f", 1⟩, ⟨"g", 1⟩]⟩ := by
  have hperm : crossedRecords.Perm crossedRecords.reverse := (List.reverse_perm _).symm
  have hclosed : (Ledger.ofRecords crossedRecords).ClosesAs
      ⟨4, 1, 3, [⟨"h", 2⟩, ⟨"f", 1⟩, ⟨"g", 1⟩]⟩ :=
    ⟨rfl, rfl, rfl, ["f", "g", "h"], by decide, by decide, by decide, by decide⟩
  obtain ⟨-, horder, hclose⟩ := counts_in_unique_order crossedRecords
  exact ⟨hperm, hclosed, (horder _ hperm).trans ((hclose _).1 hclosed).symm⟩

end Summary

end Clausal
