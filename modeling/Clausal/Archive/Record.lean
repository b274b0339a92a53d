/-
  Clausal.Archive.Record

  Events as they are kept: terms and failures are written out, so a record can be read back
  without the program it came from. Records print as the events they were made from. A record is
  stored as a document, from which the members are left out that the kind does not call for.
-/
import Clausal.Archive.Document
import Clausal.Trace

namespace Clausal

/-- What a record tells of. Records from elsewhere may tell of something else. -/
inductive Record.Kind where
  | call
  | result
  | fail
  | other (word : String) (strange : word ∉ ["call", "return", "fail"])
  deriving DecidableEq, Repr

def Record.Kind.word : Record.Kind → String
  | .call => "call"
  | .result => "return"
  | .fail => "fail"
  | .other word _ => word

def Record.Kind.ofWord (word : String) : Record.Kind :=
  if hcall : word = "call" then .call
  else if hreturn : word = "return" then .result
  else if hfail : word = "fail" then .fail
  else .other word (by simp [hcall, hreturn, hfail])

@[simp] theorem Record.Kind.ofWord_word (kind : Record.Kind) : ofWord kind.word = kind := by
  cases kind with
  | other word strange =>
    simp only [List.mem_cons, List.not_mem_nil, or_false, not_or] at strange
    simp [ofWord, Kind.word, strange]
  | _ => rfl

/-- An event that is kept. Of `args`, `result` and `error` only those are filled that the kind
    calls for. -/
structure Record where
  kind : Record.Kind
  depth : Int
  name : String
  args : List String
  result : String
  error : String
  deriving DecidableEq, Repr

namespace Record

/-- The record of a call that is entered. -/
def entered (depth : Int) (name : String) (args : List Term) : Record :=
  ⟨.call, depth, name, args.map Term.render, "", ""⟩

/-- The record of a call that is left. A missing result is kept as an empty text. -/
def left (depth : Int) (name : String) : Except String Term → Record
  | .ok .hole => ⟨.result, depth, name, [], "", ""⟩
  | .ok t => ⟨.result, depth, name, [], t.render, ""⟩
  | .error text => ⟨.fail, depth, name, [], "", text⟩

def ofEvent : Event String → Record
  | .enter depth name args => entered depth name args
  | .leave depth name result => left depth name result

/-! ## Records as documents -/

def members (r : Record) : List Document.Member :=
  [⟨"kind", false, .text r.kind.word⟩, ⟨"depth", false, .number r.depth⟩,
    ⟨"name", false, .text r.name⟩, ⟨"args", true, .texts r.args⟩,
    ⟨"result", true, .text r.result⟩, ⟨"error", true, .text r.error⟩]

def decode? (d : Document) : Option Record := do
  let kind ← d.text? "kind"
  let depth ← d.number? "depth"
  let name ← d.text? "name"
  let args ← d.texts? "args"
  let result ← d.text? "result"
  let error ← d.text? "error"
  return ⟨.ofWord kind, depth, name, args, result, error⟩

/-- A record is read back from the document of its members. -/
theorem decode?_write (r : Record) : decode? (.write r.members) = some r := by
  have hnames : (r.members.map (·.name)).Nodup := by simp [members]
  rw [decode?, Document.text?_write hnames 0 rfl, Document.number?_write hnames 1 rfl,
    Document.text?_write hnames 2 rfl, Document.texts?_write hnames 3 rfl,
    Document.text?_write hnames 4 rfl, Document.text?_write hnames 5 rfl]
  simp

/-- Of the members that are left out when they are empty, the record of a result has one. -/
example : (Document.write (left 1 "f" (.ok (.ident "y"))).members).entries
    = [("kind", .text "return"), ("depth", .number 1), ("name", .text "f"),
      ("result", .text "y")] := by decide

instance : Documented Record := ⟨fun r => .write r.members, decode?, decode?_write⟩

/-! ## What is printed -/

def describe (r : Record) : String :=
  match r.kind with
  | .call => s!"{r.depth} call {r.name} [" ++ joinWith " " r.args ++ "]"
  | .fail => s!"{r.depth} fail {r.name}: {r.error}"
  | _ => s!"{r.depth} return {r.result}"

/-- The line that tells of a record, indented by its depth. -/
def line (colour : Bool) (r : Record) : String :=
  match r.kind with
  | .call =>
    indent r.depth.toNat ++ Colour.cyan.paint colour "call" ++ " " ++ r.name ++ " ("
      ++ joinWith ", " r.args ++ ")\n"
  | .fail =>
    indent r.depth.toNat ++ Colour.red.paint colour "fail" ++ " " ++ r.name ++ ": " ++ r.error
      ++ "\n"
  | _ =>
    indent r.depth.toNat ++ Colour.green.paint colour "return" ++ " " ++ r.result ++ "\n"

def lines (colour : Bool) (records : List Record) : String :=
  String.join (records.map (line colour))

end Record

end Clausal
