/-
  Clausal.Archive.Basic

  The archive of runs. A run gets its number when it begins, and is stored with its records when
  it is finished; what is stored is never changed. Runs and records are kept apart, in two buckets
  under the same keys, and both are written at once or neither; the records of a run have a bucket
  of their own, under the numbers of their places. An archive can be closed and opened again; a
  recorder belongs to the opening in which its run began, and cannot finish in another.

  What stands in a bucket is a document, which is written when the run is finished and read whenever
  the archive is asked.
-/
import Clausal.Archive.Bucket
import Clausal.Archive.Record

namespace Clausal

/-- A run: its number, the digest of its program, a label, when it began, and how it ended. -/
structure Run where
  id : Nat
  program : String
  label : String
  begun : String
  value : String
  steps : Int
  error : String
  deriving DecidableEq, Repr

namespace Run

def members (r : Run) : List Document.Member :=
  [⟨"id", false, .number r.id⟩, ⟨"program", false, .text r.program⟩,
    ⟨"label", false, .text r.label⟩, ⟨"when", false, .text r.begun⟩,
    ⟨"value", true, .text r.value⟩, ⟨"steps", false, .number r.steps⟩,
    ⟨"error", true, .text r.error⟩]

def decode? (d : Document) : Option Run := do
  let id ← d.natural? "id"
  let program ← d.text? "program"
  let label ← d.text? "label"
  let begun ← d.text? "when"
  let value ← d.text? "value"
  let steps ← d.number? "steps"
  let error ← d.text? "error"
  return ⟨id, program, label, begun, value, steps, error⟩

/-- A run is read back from the document of its members. -/
theorem decode?_write (r : Run) : decode? (.write r.members) = some r := by
  have hnames : (r.members.map (·.name)).Nodup := by simp [members]
  rw [decode?, Document.natural?_write hnames 0 rfl, Document.text?_write hnames 1 rfl,
    Document.text?_write hnames 2 rfl, Document.text?_write hnames 3 rfl,
    Document.text?_write hnames 4 rfl, Document.number?_write hnames 5 rfl,
    Document.text?_write hnames 6 rfl]
  rfl

instance : Documented Run := ⟨fun r => .write r.members, decode?, decode?_write⟩

end Run

/-- What an archive keeps: the last number given out, the stored runs, and their records. -/
structure Database where
  issued : Nat
  runs : Bucket (Stored Run)
  records : Bucket (Bucket (Stored Record))
  deriving DecidableEq, Repr

namespace Database

/-- A database in which no run was begun. -/
def empty : Database := ⟨0, .empty, .empty⟩

/-- The key of the run with a number. -/
def keyOf (id : Nat) : List UInt8 := bigEndian 8 id

/-- The number that is given out next. Numbers have 64 bits. -/
def next (d : Database) : Nat := (d.issued + 1) % UInt64.size

end Database

/-- An archive in use. `opening` counts how often it was opened. -/
structure Archive where
  database : Database
  opening : Nat
  isOpen : Bool
  deriving DecidableEq, Repr

/-- A run that is under way, and what happened in it so far, the latest first. -/
structure Recorder where
  opening : Nat
  run : Run
  recent : List Record
  deriving DecidableEq, Repr

/-- How a run ended. -/
structure Ending where
  value : Option Term
  steps : Int
  error : Option String
  diagnostic : Option String
  deriving Repr

namespace Archive

/-- Why an archive refuses. -/
inductive Fault where
  | closed
  | noRuns
  | notFound (id : Nat)
  | recorded (id : Nat)
  /-- There are records for a run that is not stored. -/
  | occupied
  deriving DecidableEq, Repr

/-- The cause of a refusal, where it is one that callers test for. -/
def Fault.cause? : Fault → Option Cause
  | .closed => none
  | .noRuns => some .runNotFound
  | .notFound _ => some .runNotFound
  | .recorded _ => some .runRecorded
  | .occupied => none

def Fault.message : Fault → String
  | .closed => "database not open"
  | .noRuns => "last: " ++ Cause.runNotFound.text
  | .notFound id => s!"{id}: " ++ Cause.runNotFound.text
  | .recorded id => s!"{id}: " ++ Cause.runRecorded.text
  | .occupied => "bucket already exists"

/-! ## Opening and closing -/

def ofDatabase (d : Database) : Archive := ⟨d, 0, true⟩

def close (a : Archive) : Archive := { a with isOpen := false }

def reopen (a : Archive) : Archive := { a with opening := a.opening + 1, isOpen := true }

def access (a : Archive) : Except Fault Database :=
  if a.isOpen then .ok a.database else .error .closed

/-! ## Asking -/

/-- The stored runs, in the order of their keys. -/
def runs (a : Archive) : Except Fault (List Run) := do
  let d ← a.access
  return d.runs.values.map Stored.value

def last (a : Archive) : Except Fault Run := do
  let d ← a.access
  match d.runs.last? with
  | some r => return r.value
  | none => .error .noRuns

def run (a : Archive) (id : Nat) : Except Fault Run := do
  let d ← a.access
  match d.runs.get? (Database.keyOf id) with
  | some r => return r.value
  | none => .error (.notFound id)

/-- The records of the stored run with a number, in the order of their keys. -/
def records (a : Archive) (id : Nat) : Except Fault (List Record) := do
  let d ← a.access
  match d.records.get? (Database.keyOf id) with
  | some records => return records.values.map Stored.value
  | none => .error (.notFound id)

/-! ## Recording -/

/-- Begins a run: gives it the next number. -/
def begin (a : Archive) (program label time : String) : Except Fault (Recorder × Archive) := do
  let d ← a.access
  return (⟨a.opening, ⟨d.next, program, label, time, "", 0, ""⟩, []⟩,
    { a with database := { d with issued := d.next } })

/-- Stores a run and its records, provided that neither is stored yet. -/
def save (a : Archive) (r : Run) (records : List Record) : Except Fault Archive := do
  let d ← a.access
  let key := Database.keyOf r.id
  match d.runs.get? key, d.records.get? key with
  | some _, _ => .error (.recorded r.id)
  | none, some _ => .error .occupied
  | none, none =>
    return { a with database :=
      { d with
        runs := d.runs.put key (.of r)
        records := d.records.put key (.numbered (records.map .of)) } }

end Archive

namespace Recorder

def add (r : Recorder) (record : Record) : Recorder := { r with recent := record :: r.recent }

def enter (r : Recorder) (depth : Int) (name : String) (args : List Term) : Recorder :=
  r.add (.entered depth name args)

def leave (r : Recorder) (depth : Int) (name : String) (result : Except String Term) : Recorder :=
  r.add (.left depth name result)

def addEvents (r : Recorder) (events : List (Event String)) : Recorder :=
  events.foldl (fun r event => r.add (.ofEvent event)) r

/-- The recorder of a run that has ended. An error counts before a diagnostic. -/
def ended (r : Recorder) (ending : Ending) : Recorder :=
  { r with run :=
      { r.run with
        steps := ending.steps
        value := (ending.value.map Term.render).getD r.run.value
        error := (ending.error.or ending.diagnostic).getD r.run.error } }

/-- Finishes the run: stores it with how it ended and what happened in it. -/
def finish (r : Recorder) (a : Archive) (ending : Ending) :
    Except Archive.Fault Archive × Recorder :=
  let r := r.ended ending
  let result :=
    if r.opening = a.opening then a.save r.run r.recent.reverse else .error .closed
  (result, r)

end Recorder

end Clausal
