/-
  Clausal.Archive.Document

  Documents: values under names, each of them a text, a number or a list of texts. What an archive
  stores it writes down as a document, member by member, and reads it from there anew whenever it is
  asked. A member may be left out when it is empty; what is not there is read as empty, and what is
  there but of another sort makes the document unreadable.

    * `Document.text?_write` and its like: a member that was written is read back, even when it was
      left out;
    * `Stored.value_of`: so is a value of which each member is.
-/
namespace Clausal

/-- What a member of a document holds. -/
inductive Document.Value where
  | text (s : String)
  | number (n : Int)
  | texts (list : List String)
  deriving DecidableEq, Repr

/-- Values under names, in the order in which they were written. -/
structure Document where
  entries : List (String × Document.Value)
  deriving DecidableEq, Repr

namespace Document

namespace Value

def isEmpty : Value → Bool
  | .text s => s == ""
  | .number n => n == 0
  | .texts list => list == []

def text? : Value → Option String
  | .text s => some s
  | _ => none

def number? : Value → Option Int
  | .number n => some n
  | _ => none

def texts? : Value → Option (List String)
  | .texts list => some list
  | _ => none

end Value

/-! ## Reading -/

/-- Reads what stands under a name, and `empty` if nothing does. -/
def read? {α : Type} (part : Value → Option α) (empty : α) (d : Document) (name : String) :
    Option α :=
  match d.entries.lookup name with
  | none => some empty
  | some value => part value

def text? : Document → String → Option String := read? Value.text? ""

def number? : Document → String → Option Int := read? Value.number? 0

/-- A number that is not negative. -/
def natural? (d : Document) (name : String) : Option Nat := do
  match ← d.number? name with
  | .ofNat n => return n
  | .negSucc _ => none

def texts? : Document → String → Option (List String) := read? Value.texts? []

/-! ## Writing -/

/-- A member to be written, and whether it is left out when it is empty. -/
structure Member where
  name : String
  optional : Bool
  value : Value

def Member.entry? (m : Member) : Option (String × Value) :=
  if m.optional && m.value.isEmpty then none else some (m.name, m.value)

theorem Member.eq_of_entry? {m : Member} {entry : String × Value} (h : m.entry? = some entry) :
    entry = (m.name, m.value) := by
  unfold entry? at h
  split at h <;> cases h
  rfl

/-- The document with some members, as far as they are not left out. -/
def write (members : List Member) : Document := ⟨members.filterMap Member.entry?⟩

theorem lookup_write_of_not_mem {members : List Member} {name : String}
    (h : name ∉ members.map (·.name)) : (write members).entries.lookup name = none := by
  rw [List.lookup_eq_none_iff]
  intro entry hentry
  obtain ⟨m, hm, hsome⟩ := List.mem_filterMap.1 hentry
  obtain rfl := Member.eq_of_entry? hsome
  exact bne_iff_ne.2 fun heq : name = m.name => h (heq ▸ List.mem_map_of_mem hm)

/-- A member is found under its name, unless it was left out. -/
theorem lookup_write {members : List Member} (hnames : (members.map (·.name)).Nodup) {m : Member}
    (hm : m ∈ members) : (write members).entries.lookup m.name = m.entry?.map (·.2) := by
  induction members with
  | nil => cases hm
  | cons first rest ih =>
    rw [List.map_cons, List.nodup_cons] at hnames
    show (List.filterMap Member.entry? (first :: rest)).lookup m.name = _
    rcases List.mem_cons.1 hm with rfl | hm
    · cases hentry : m.entry? with
      | none =>
        rw [List.filterMap_cons_none hentry]
        exact lookup_write_of_not_mem hnames.1
      | some entry =>
        obtain rfl := Member.eq_of_entry? hentry
        rw [List.filterMap_cons_some hentry, List.lookup_cons_self]
        rfl
    · have hne : m.name ≠ first.name := fun heq => hnames.1 (heq ▸ List.mem_map_of_mem hm)
      cases hentry : first.entry? with
      | none =>
        rw [List.filterMap_cons_none hentry]
        exact ih hnames.2 hm
      | some entry =>
        obtain rfl := Member.eq_of_entry? hentry
        rw [List.filterMap_cons_some hentry, List.lookup_cons, beq_false_of_ne hne]
        exact ih hnames.2 hm

/-- A member is read back, provided that an empty one is read as `empty`. -/
theorem read?_write {α : Type} {part : Value → Option α} {empty x : α} {members : List Member}
    (hnames : (members.map (·.name)).Nodup) {i : Nat} {m : Member} (hm : members[i]? = some m)
    (hpart : part m.value = some x) (hempty : m.value.isEmpty = true → x = empty) :
    read? part empty (write members) m.name = some x := by
  rw [read?, lookup_write hnames (List.mem_of_getElem? hm), Member.entry?]
  by_cases hout : (m.optional && m.value.isEmpty) = true
  · rw [if_pos hout, hempty (Bool.and_eq_true_iff.1 hout).2]
    rfl
  · rw [if_neg hout]
    exact hpart

section

variable {members : List Member} (hnames : (members.map (·.name)).Nodup) {name : String}
  {optional : Bool}

include hnames

theorem text?_write (i : Nat) {s : String} (h : members[i]? = some ⟨name, optional, .text s⟩) :
    (write members).text? name = some s :=
  read?_write hnames h rfl beq_iff_eq.1

theorem number?_write (i : Nat) {n : Int} (h : members[i]? = some ⟨name, optional, .number n⟩) :
    (write members).number? name = some n :=
  read?_write hnames h rfl beq_iff_eq.1

theorem natural?_write (i : Nat) {n : Nat} (h : members[i]? = some ⟨name, optional, .number n⟩) :
    (write members).natural? name = some n := by
  rw [natural?, number?_write hnames i h]
  rfl

theorem texts?_write (i : Nat) {list : List String}
    (h : members[i]? = some ⟨name, optional, .texts list⟩) :
    (write members).texts? name = some list :=
  read?_write hnames h rfl beq_iff_eq.1

end

end Document

/-! ## Values that are kept as documents -/

/-- How the values of a type are written down and read back. -/
class Documented (α : Type) where
  encode : α → Document
  decode? : Document → Option α
  decode?_encode : ∀ x, decode? (encode x) = some x

/-- A document from which a value can be read. -/
structure Stored (α : Type) [Documented α] where
  document : Document
  readable : (Documented.decode? document : Option α).isSome
  deriving DecidableEq, Repr

namespace Stored

variable {α : Type} [Documented α]

/-- The document of a value. -/
def of (x : α) : Stored α := ⟨Documented.encode x, by rw [Documented.decode?_encode]; rfl⟩

/-- The value that is read from a document. -/
def value (s : Stored α) : α := (Documented.decode? s.document : Option α).get s.readable

/-- **What is stored is read back**, whatever members were left out. -/
@[simp] theorem value_of (x : α) : (of x).value = x :=
  Option.get_of_eq_some _ (Documented.decode?_encode x)

@[simp] theorem map_value_of (xs : List α) : (xs.map of).map value = xs := by
  induction xs with
  | nil => rfl
  | cons x xs ih => rw [List.map_cons, List.map_cons, value_of, ih]

end Stored

end Clausal
