/-
  Clausal.Archive.Summary

  What a list of records adds up to: how many calls and failures, how deep, and how often each
  function was called. Functions come by falling number of calls, those called equally often by
  name, so the order does not depend on that of the records.
-/
import Clausal.Archive.Record

namespace Clausal

/-- How often a function was called. -/
structure Tally where
  name : String
  calls : Nat
  deriving DecidableEq, Repr

/-- Whether one tally comes before another or is the same. -/
def Tally.precedes (a b : Tally) : Bool :=
  if a.calls = b.calls then a.name ≤ b.name else b.calls < a.calls

/-- What a list of records adds up to. -/
structure Summary where
  calls : Nat
  failures : Nat
  maxDepth : Int
  functions : List Tally
  deriving DecidableEq, Repr

namespace Summary

/-- The names that were called, once for each call. -/
def calledNames (records : List Record) : List String :=
  (records.filter (·.kind = .call)).map (·.name)

def ofRecords (records : List Record) : Summary :=
  let called := calledNames records
  { calls := called.length
    failures := records.countP (·.kind = .fail)
    maxDepth := (records.map (·.depth)).foldl max 0
    functions := (called.eraseDups.map fun name => ⟨name, called.count name⟩).mergeSort
      Tally.precedes }

def describe (s : Summary) : String :=
  s!"calls: {s.calls}, failures: {s.failures}, max depth: {s.maxDepth}\n" ++
    String.join (s.functions.map fun t => flushRight 8 (toString t.calls) ++ "  " ++ t.name ++ "\n")

end Summary

end Clausal
