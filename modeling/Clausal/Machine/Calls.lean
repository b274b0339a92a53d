/-
  Clausal.Machine.Calls

  The calls that an evaluator has entered and not yet left. A failure reports all of them, and
  a depth budget asks how many there are.
-/
import Clausal.Machine.Failure

namespace Clausal

/-- A call that was entered and not yet left. -/
structure OpenCall where
  name : String
  args : List Term
  deriving DecidableEq, Repr

def OpenCall.site (c : OpenCall) : Site := ⟨c.name, c.args.map Term.render⟩

/-- The open calls, the innermost first, with their number. -/
structure CallStack where
  calls : List OpenCall
  depth : Nat
  depth_eq : depth = calls.length
  deriving Repr

namespace CallStack

def empty : CallStack := ⟨[], 0, rfl⟩

def push (s : CallStack) (c : OpenCall) : CallStack :=
  ⟨c :: s.calls, s.depth + 1, by rw [s.depth_eq, List.length_cons]⟩

def pop (s : CallStack) : CallStack :=
  ⟨s.calls.tail, s.depth - 1, by rw [s.depth_eq, List.length_tail]⟩

/-- The open calls as they are reported, the outermost first. -/
def sites (s : CallStack) : List Site := (s.calls.map OpenCall.site).reverse

@[simp] theorem calls_empty : empty.calls = [] := rfl

@[simp] theorem depth_empty : empty.depth = 0 := rfl

@[simp] theorem calls_push (s : CallStack) (c : OpenCall) : (s.push c).calls = c :: s.calls := rfl

@[simp] theorem depth_push (s : CallStack) (c : OpenCall) : (s.push c).depth = s.depth + 1 := rfl

@[simp] theorem calls_pop (s : CallStack) : s.pop.calls = s.calls.tail := rfl

@[simp] theorem depth_pop (s : CallStack) : s.pop.depth = s.depth - 1 := rfl

/-- Two stacks with the same calls are the same. -/
theorem eq_of_calls {s s' : CallStack} (h : s.calls = s'.calls) : s = s' := by
  obtain ⟨calls, depth, hdepth⟩ := s
  obtain ⟨calls', depth', hdepth'⟩ := s'
  cases h
  cases hdepth
  cases hdepth'
  rfl

theorem calls_pop_of_cons {s : CallStack} {c : OpenCall} {rest : List OpenCall}
    (h : s.calls = c :: rest) : s.pop.calls = rest := by
  rw [calls_pop, h, List.tail_cons]

theorem depth_of_cons {s : CallStack} {c : OpenCall} {rest : List OpenCall}
    (h : s.calls = c :: rest) : s.depth = rest.length + 1 := by
  rw [s.depth_eq, h, List.length_cons]

@[simp] theorem pop_push (s : CallStack) (c : OpenCall) : (s.push c).pop = s := eq_of_calls rfl

end CallStack

end Clausal
