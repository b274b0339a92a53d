/-
  Clausal.Machine.Step

  One step of the machine. A call is entered only if no interrupt is pending, the step budget
  is not used up and the calls already open leave room; the three are asked in this order, and
  a call that is refused is never opened. A call that is open is left exactly once, with the
  body it found or with the failure that went through it.
-/
import Clausal.Config
import Clausal.Machine.Basic

namespace Clausal

/-! ## Matching -/

/-- How far a call has got with its clauses: an argument is needed for an attempt, a clause has
    matched, or there is none left. -/
inductive Progress where
  | need (arg : Term) (attempt : Attempt) (others : List Clause)
  | matched (body : Term)
  | stuck
  deriving DecidableEq, Repr

/-- Takes up the first clause that has no more parameters than there are arguments. -/
def Progress.start (args : List Term) : List Clause → Progress
  | [] => .stuck
  | c :: others =>
    match c.params, args with
    | [], _ => .matched c.body
    | pattern :: patterns, arg :: rest =>
      -- Arguments behind the last parameter are left unread.
      if patterns.length ≤ rest.length then .need arg ⟨[], pattern, patterns, rest, c.body⟩ others
      else start args others
    | _ :: _, [] => start args others

/-- The bindings once a value is held against the pending pattern, if it matches. A literal
    matches the same term, whatever parentheses the value has. -/
def Attempt.accept? (a : Attempt) (value : Term) : Option Bindings :=
  match a.pending with
  | .wildcard => some a.bound
  | .var name => some (Bindings.bind name value a.bound)
  | .literal t => if t = value.strip then some a.bound else none

/-- Goes on with an attempt once the pending pattern has matched. -/
def Attempt.advance (a : Attempt) (bound : Bindings) (others : List Clause) : Progress :=
  match a.patterns, a.args with
  | pattern :: patterns, arg :: rest => .need arg ⟨bound, pattern, patterns, rest, a.body⟩ others
  | _, _ => .matched (Bindings.apply bound a.body)

/-- Goes on with a call of `args` once the value of the pending argument is known. -/
def Attempt.resume (a : Attempt) (args : List Term) (others : List Clause) (value : Term) :
    Progress :=
  match a.accept? value with
  | some bound => a.advance bound others
  | none => Progress.start args others

/-! ## Calls -/

namespace Machine

/-- Leaves the innermost open call with what it came to. -/
def leave (m : Machine) (name : String) (result : Except Failure Term) (control : Control)
    (frames : List Frame) : Machine :=
  { m with
    control := control
    frames := frames
    calls := m.calls.pop
    events := .leave m.calls.depth name result :: m.events }

/-- Leaves a call with the failure that it is itself the cause of. It is still open when the
    failure is put together. -/
def fail (m : Machine) (name : String) (cause : Cause) (frames : List Frame) : Machine :=
  let f := m.failure name cause
  m.leave name (.error f) (.abandon f) frames

/-- Acts on the progress of the innermost open call, which stands above `frames`. -/
def proceed (m : Machine) (name : String) (args : List Term) (goOn : Bool) (frames : List Frame) :
    Progress → Machine
  | .need arg attempt others =>
    { m with control := .reduce arg, frames := .call name args attempt others goOn :: frames }
  | .matched body =>
    m.leave name (.ok body) (if goOn then .reduce body else .give body) frames
  | .stuck => m.fail name .noMatchingClause frames

/-- Why a call may not be entered. -/
def refusal? (config : Config) (m : Machine) : Option Cause :=
  if config.interruptible && m.signal.raised then some .interrupted
  else if 0 < config.maxSteps && config.maxSteps ≤ m.steps then some .stepBudget
  else if 0 < config.maxDepth && config.maxDepth ≤ m.calls.depth then some .depthBudget
  else none

def opened (m : Machine) (name : String) (args : List Term) : Machine :=
  { m with
    calls := m.calls.push ⟨name, args⟩
    steps := m.steps + 1
    signal := m.signal.tick
    events := .enter (m.calls.depth + 1) name args :: m.events }

/-- Calls a function above `frames`. -/
def call (program : Program) (config : Config) (m : Machine) (name : String) (args : List Term)
    (goOn : Bool) (frames : List Frame) : Machine :=
  match m.refusal? config with
  | some cause => { m with control := .abandon (m.failure name cause), frames := frames }
  | none =>
    -- An unknown name is entered and left like any other call.
    let m := m.opened name args
    match program.clauses.get? name with
    | some clauses => m.proceed name args goOn frames (Progress.start args clauses)
    | none => m.fail name .unknownFunction frames

/-! ## Steps -/

def reduceTerm (m : Machine) (t : Term) : Machine :=
  match t with
  | .group inner => { m with control := .reduce inner }
  | .app [] => { m with control := .give (.app []) }
  -- One element alone is no call: parentheses and all, it is reduced in place.
  | .app [only] => { m with control := .reduce only }
  | .app (head :: args) => { m with control := .reduce head, frames := .head (head :: args) :: m.frames }
  | .marker => { m with control := .abandon (m.failure t.render .strayMarker) }
  | .builtinMarker => { m with control := .abandon (m.failure t.render .strayMarker) }
  | .hole => { m with control := .abandon .absent }
  | t => { m with control := .give t }

def giveValue (program : Program) (config : Config) (m : Machine) (value : Term) : Machine :=
  match m.frames with
  | [] => m
  | .head elems :: frames =>
    match value with
    | .ident name =>
      if program.isValueHead name then { m with control := .give (.app elems), frames := frames }
      else m.call program config name elems.tail true frames
    | head =>
      { m with control := .abandon (m.failure head.render .malformedHead), frames := frames }
  | .call name args attempt others goOn :: frames =>
    m.proceed name args goOn frames (attempt.resume args others value)

/-- Gives up the topmost frame. An open call is left with the failure. -/
def abandonFrame (m : Machine) (f : Failure) : Machine :=
  match m.frames with
  | [] => m
  | .head _ :: frames => { m with frames := frames }
  | .call name _ _ _ _ :: frames => m.leave name (.error f) (.abandon f) frames

/-- One step. A machine that has come to a result stays as it is. -/
def step (program : Program) (config : Config) (m : Machine) : Machine :=
  match m.control with
  | .reduce t => m.reduceTerm t
  | .give value => m.giveValue program config value
  | .abandon f => m.abandonFrame f

end Machine

end Clausal
