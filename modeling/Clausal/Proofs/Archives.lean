/-
  Clausal.Proofs.Archives

  The archive only grows, and its two buckets stay in step. A `Shelf` is an archive together with
  the recorders that were begun; `Shelf.perform` carries out one operation on it, and a log says
  what was asked and answered so far.

    * `Shelf.Change` lists what an operation may do: nothing to what is stored, or give out a
      number, or store a run with its records; `Shelf.perform_change` says that the list is complete;
    * `Shelf.Faithful` relates what is stored to the log, and each change keeps it
      (`Faithful.change`), hence every list of operations does (`Faithful.after`);
    * `Shelf.append_only` reads off what this means for the answers.
-/
import Clausal.Archive.Basic
import Clausal.Proofs.Buckets

namespace Clausal

/-! ## What an archive answers -/

namespace Archive

variable {a : Archive}

theorem access_of_open (h : a.isOpen = true) : a.access = .ok a.database := by
  rw [access, if_pos h]

theorem access_of_closed (h : a.isOpen = false) : a.access = .error .closed := by
  rw [access, h]
  rfl

theorem runs_eq_ok_iff {list : List Run} :
    a.runs = .ok list ↔ a.isOpen = true ∧ list = a.database.runs.values.map Stored.value := by
  unfold runs
  cases h : a.isOpen with
  | false => simp [access_of_closed h, bind, Except.bind]
  | true => simp [access_of_open h, bind, Except.bind, pure, Except.pure, eq_comm]

theorem run_eq_ok_iff {id : Nat} {r : Run} :
    a.run id = .ok r ↔
      a.isOpen = true ∧
        (a.database.runs.get? (Database.keyOf id)).map Stored.value = some r := by
  unfold run
  cases h : a.isOpen with
  | false => simp [access_of_closed h, bind, Except.bind]
  | true =>
    simp only [access_of_open h, bind, Except.bind]
    cases a.database.runs.get? (Database.keyOf id) <;> simp [pure, Except.pure]

theorem records_eq_ok_iff {id : Nat} {list : List Record} :
    a.records id = .ok list ↔
      a.isOpen = true ∧
        (a.database.records.get? (Database.keyOf id)).map (·.values.map Stored.value)
          = some list := by
  unfold records
  cases h : a.isOpen with
  | false => simp [access_of_closed h, bind, Except.bind]
  | true =>
    simp only [access_of_open h, bind, Except.bind]
    cases a.database.records.get? (Database.keyOf id) <;> simp [pure, Except.pure]

theorem last_of_open (h : a.isOpen = true) :
    a.last =
      match (a.database.runs.values.map Stored.value).getLast? with
      | some r => .ok r
      | none => .error .noRuns := by
  unfold last
  rw [access_of_open h]
  simp only [bind, Except.bind, Bucket.last?_eq, List.getLast?_map]
  cases a.database.runs.values.getLast? <;> rfl

/-- Beginning a run does no more than to give out the next number. -/
theorem begin_ok {program label time : String} {r : Recorder} {a' : Archive}
    (h : a.begin program label time = .ok (r, a')) :
    r.run.id = a.database.next ∧ a' = { a with database := { a.database with
      issued := a.database.next } } := by
  unfold begin at h
  rcases Bool.eq_false_or_eq_true a.isOpen with hopen | hopen
  · rw [access_of_open hopen] at h
    cases h
    exact ⟨rfl, rfl⟩
  · rw [access_of_closed hopen] at h
    cases h

/-- A run is stored only if neither bucket has its key. -/
theorem save_ok {r : Run} {list : List Record} {a' : Archive} (h : a.save r list = .ok a') :
    a.database.runs.get? (Database.keyOf r.id) = none ∧
      a.database.records.get? (Database.keyOf r.id) = none ∧
      a' = { a with database := { a.database with
        runs := a.database.runs.put (Database.keyOf r.id) (.of r)
        records := a.database.records.put (Database.keyOf r.id)
          (.numbered (list.map .of)) } } := by
  unfold save at h
  rcases Bool.eq_false_or_eq_true a.isOpen with hopen | hopen
  · rw [access_of_open hopen] at h
    simp only [bind, Except.bind] at h
    split at h
    · cases h
    · cases h
    · rename_i hruns hrecords
      cases h
      exact ⟨hruns, hrecords, rfl⟩
  · rw [access_of_closed hopen] at h
    cases h

theorem isOpen_of_save {r : Run} {list : List Record} {a' : Archive}
    (h : a.save r list = .ok a') : a.isOpen = true := by
  by_contra hclosed
  rw [save, access_of_closed (Bool.eq_false_of_not_eq_true hclosed)] at h
  cases h

end Archive

/-! ## Operations -/

/-- What an archive and the recorders of its runs may be asked to do. A recorder is known by its
    place among those that were begun. -/
inductive Operation where
  | begin (program label time : String)
  | enter (recorder : Nat) (depth : Int) (name : String) (args : List Term)
  | leave (recorder : Nat) (depth : Int) (name : String) (result : Except String Term)
  | finish (recorder : Nat) (ending : Ending)
  | runs
  | last
  | run (id : Nat)
  | records (id : Nat)
  | close
  | reopen

/-- What an operation is answered with. -/
inductive Answer where
  | begun (id : Nat)
  | finished (id : Nat)
  | runs (list : List Run)
  | run (r : Run)
  | records (list : List Record)
  | done
  | fault (f : Archive.Fault)

namespace Answer

/-- The number that was given out. -/
def begun? : Answer → Option Nat
  | .begun id => some id
  | _ => none

/-- The number of the run that was stored. -/
def finished? : Answer → Option Nat
  | .finished id => some id
  | _ => none

end Answer

/-- An archive and the recorders that were begun, in order. -/
structure Shelf where
  archive : Archive
  recorders : List Recorder

namespace Shelf

/-- An empty archive, just opened. -/
def empty : Shelf := ⟨.ofDatabase .empty, []⟩

/-- A question that is answered or refused. -/
def ask {α : Type} (s : Shelf) (answer : α → Answer) : Except Archive.Fault α → Answer × Shelf
  | .ok value => (answer value, s)
  | .error f => (.fault f, s)

def record (s : Shelf) (recorder : Nat) (change : Recorder → Recorder) : Answer × Shelf :=
  (.done, { s with recorders := s.recorders.modify recorder change })

/-- Finishes the run of a recorder. -/
def finish (s : Shelf) (recorder : Nat) (ending : Ending) : Answer × Shelf :=
  match s.recorders[recorder]? with
  | none => (.done, s)
  | some r =>
    let (result, r) := r.finish s.archive ending
    let recorders := s.recorders.set recorder r
    match result with
    | .ok archive => (.finished r.run.id, ⟨archive, recorders⟩)
    | .error f => (.fault f, ⟨s.archive, recorders⟩)

def perform (s : Shelf) : Operation → Answer × Shelf
  | .begin program label time =>
    match s.archive.begin program label time with
    | .ok (r, archive) => (.begun r.run.id, ⟨archive, s.recorders ++ [r]⟩)
    | .error f => (.fault f, s)
  | .enter recorder depth name args => s.record recorder (·.enter depth name args)
  | .leave recorder depth name result => s.record recorder (·.leave depth name result)
  | .finish recorder ending => s.finish recorder ending
  | .runs => s.ask .runs s.archive.runs
  | .last => s.ask .run s.archive.last
  | .run id => s.ask .run (s.archive.run id)
  | .records id => s.ask .records (s.archive.records id)
  | .close => (.done, { s with archive := s.archive.close })
  | .reopen => (.done, { s with archive := s.archive.reopen })

/-- The shelf after some operations. -/
def after (s : Shelf) (ops : List Operation) : Shelf := ops.foldl (fun s op => (s.perform op).2) s

/-- What was asked and answered, in order. -/
abbrev Log := List (Operation × Answer)

def log (s : Shelf) : List Operation → Log
  | [] => []
  | op :: rest => (op, (s.perform op).1) :: (s.perform op).2.log rest

/-- The numbers that were given out, in order. -/
def begunIds (log : Log) : List Nat := log.filterMap (·.2.begun?)

/-- The numbers of the runs that were stored, in order. -/
def finishedIds (log : Log) : List Nat := log.filterMap (·.2.finished?)

theorem begunIds_concat (log : Log) (op : Operation) (answer : Answer) :
    begunIds (log ++ [(op, answer)]) = begunIds log ++ answer.begun?.toList := by
  cases h : answer.begun? <;> simp [begunIds, List.filterMap_append, h]

theorem finishedIds_concat (log : Log) (op : Operation) (answer : Answer) :
    finishedIds (log ++ [(op, answer)]) = finishedIds log ++ answer.finished?.toList := by
  cases h : answer.finished? <;> simp [finishedIds, List.filterMap_append, h]

/-! ## What an operation may do -/

/-- What is stored in the archive of a shelf. -/
abbrev database (s : Shelf) : Database := s.archive.database

/-- The numbers that recorders hold. -/
def ids (s : Shelf) : List Nat := s.recorders.map (·.run.id)

/-- An answer that tells of a stored run or of stored records is what stands in the bucket. -/
structure Truthful (d : Database) (op : Operation) (answer : Answer) : Prop where
  run : ∀ id r, op = .run id → answer = .run r →
    (d.runs.get? (Database.keyOf id)).map Stored.value = some r
  records : ∀ id list, op = .records id → answer = .records list →
    (d.records.get? (Database.keyOf id)).map (·.values.map Stored.value) = some list

theorem Truthful.done {d : Database} {op : Operation} : Truthful d op .done :=
  ⟨by rintro _ _ _ ⟨⟩, by rintro _ _ _ ⟨⟩⟩

theorem Truthful.fault {d : Database} {op : Operation} (f : Archive.Fault) :
    Truthful d op (.fault f) :=
  ⟨by rintro _ _ _ ⟨⟩, by rintro _ _ _ ⟨⟩⟩

/-- The ways in which an operation may change a shelf. -/
inductive Change (s : Shelf) (op : Operation) : Answer → Shelf → Prop where
  /-- What is stored stays as it is. -/
  | keep {answer : Answer} {s' : Shelf} : s'.database = s.database → s'.ids = s.ids →
      answer.begun? = none → answer.finished? = none → Truthful s.database op answer →
      Change s op answer s'
  /-- A number is given out. -/
  | begin {s' : Shelf} :
      s'.database = { s.database with issued := s.database.next } →
      s'.ids = s.ids ++ [s.database.next] →
      Change s op (.begun s.database.next) s'
  /-- A run is stored with its records. -/
  | store {s' : Shelf} {r : Run} {records : Bucket (Stored Record)} : r.id ∈ s.ids →
      s.database.runs.get? (Database.keyOf r.id) = none →
      s.database.records.get? (Database.keyOf r.id) = none →
      s'.database = { s.database with
        runs := s.database.runs.put (Database.keyOf r.id) (.of r)
        records := s.database.records.put (Database.keyOf r.id) records } →
      s'.ids = s.ids →
      Change s op (.finished r.id) s'

/-- A question leaves the shelf as it is. -/
theorem ask_shelf {α : Type} (s : Shelf) (answer : α → Answer) (found : Except Archive.Fault α) :
    (s.ask answer found).2 = s := by
  cases found <;> rfl

/-- A question is no change to what is stored. -/
theorem ask_change {α : Type} {s : Shelf} {op : Operation} {answer : α → Answer}
    {found : Except Archive.Fault α} (hbegun : ∀ x, (answer x).begun? = none)
    (hfinished : ∀ x, (answer x).finished? = none)
    (htrue : ∀ x, found = .ok x → Truthful s.database op (answer x)) :
    Change s op (s.ask answer found).1 (s.ask answer found).2 := by
  cases found with
  | ok x => exact .keep rfl rfl (hbegun x) (hfinished x) (htrue x rfl)
  | error f => exact .keep rfl rfl rfl rfl (.fault f)

/-- Recording changes no number. -/
theorem record_change {s : Shelf} {op : Operation} (recorder : Nat) {change : Recorder → Recorder}
    (hid : ∀ r, (change r).run.id = r.run.id) :
    Change s op (s.record recorder change).1 (s.record recorder change).2 := by
  refine .keep rfl ?_ rfl rfl .done
  show (s.recorders.modify recorder change).map (·.run.id) = s.recorders.map (·.run.id)
  apply List.ext_getElem?
  intro i
  rw [List.getElem?_map, List.getElem?_map, List.getElem?_modify]
  cases s.recorders[i]? with
  | none => rfl
  | some r =>
    by_cases h : recorder = i
    · simp [h, hid]
    · simp [h]

theorem finish_change (s : Shelf) (op : Operation) (recorder : Nat) (ending : Ending) :
    Change s op (s.finish recorder ending).1 (s.finish recorder ending).2 := by
  unfold finish
  cases hr : s.recorders[recorder]? with
  | none => exact .keep rfl rfl rfl rfl .done
  | some r =>
    -- How a run ended does not touch its number.
    have hids : (s.recorders.set recorder (r.ended ending)).map (·.run.id)
        = s.recorders.map (·.run.id) := by
      obtain ⟨hlt, rfl⟩ := List.getElem?_eq_some_iff.1 hr
      rw [List.map_set]
      apply List.ext_getElem?
      intro i
      rw [List.getElem?_set]
      by_cases h : recorder = i
      · subst h
        simp [hlt, Recorder.ended]
      · simp [h]
    have hmem : (r.ended ending).run.id ∈ s.ids :=
      List.mem_map.2 ⟨r, List.mem_of_getElem? hr, rfl⟩
    simp only [Recorder.finish]
    split
    · rename_i a' hsaved
      split at hsaved
      · obtain ⟨hruns, hrecords, rfl⟩ := Archive.save_ok hsaved
        exact .store hmem hruns hrecords rfl hids
      · cases hsaved
    · exact .keep rfl hids rfl rfl (.fault _)

/-- Every operation is one of the changes. -/
theorem perform_change (s : Shelf) (op : Operation) :
    Change s op (s.perform op).1 (s.perform op).2 := by
  cases op with
  | begin program label time =>
    simp only [perform]
    split
    · rename_i r a' hbegun
      obtain ⟨hid, rfl⟩ := Archive.begin_ok hbegun
      rw [hid]
      refine .begin rfl ?_
      simp [ids, hid]
    · exact .keep rfl rfl rfl rfl (.fault _)
  | enter recorder depth name args => exact record_change recorder fun _ => rfl
  | leave recorder depth name result => exact record_change recorder fun _ => rfl
  | finish recorder ending => exact finish_change s _ recorder ending
  | runs => exact ask_change (fun _ => rfl) (fun _ => rfl) fun _ _ => ⟨by simp, by simp⟩
  | last => exact ask_change (fun _ => rfl) (fun _ => rfl) fun _ _ => ⟨by simp, by simp⟩
  | run id =>
    refine ask_change (fun _ => rfl) (fun _ => rfl) fun r hr => ⟨?_, by simp⟩
    rintro id' r' ⟨⟩ ⟨⟩
    exact (Archive.run_eq_ok_iff.1 hr).2
  | records id =>
    refine ask_change (fun _ => rfl) (fun _ => rfl) fun list hlist => ⟨by simp, ?_⟩
    rintro id' list' ⟨⟩ ⟨⟩
    exact (Archive.records_eq_ok_iff.1 hlist).2
  | close => exact .keep rfl rfl rfl rfl .done
  | reopen => exact .keep rfl rfl rfl rfl .done

/-- An operation that is refused leaves the archive exactly as it was. -/
theorem perform_fault {s : Shelf} {op : Operation} {f : Archive.Fault}
    (h : (s.perform op).1 = .fault f) : (s.perform op).2.archive = s.archive := by
  cases op with
  | begin program label time =>
    simp only [perform] at h ⊢
    split at h
    · cases h
    · rfl
  | finish recorder ending =>
    simp only [perform, finish] at h ⊢
    split at h
    · cases h
    · split at h
      · cases h
      · rfl
  | enter recorder depth name args => rfl
  | leave recorder depth name result => rfl
  | runs => rw [perform, ask_shelf]
  | last => rw [perform, ask_shelf]
  | run id => rw [perform, ask_shelf]
  | records id => rw [perform, ask_shelf]
  | close => cases h
  | reopen => cases h

/-! ## What is stored, and what was answered -/

/-- What stood under a key in either bucket still does. -/
structure Grows (d d' : Database) : Prop where
  runs : ∀ key r, d.runs.get? key = some r → d'.runs.get? key = some r
  records : ∀ key list, d.records.get? key = some list → d'.records.get? key = some list

/-- What is read from a bucket is read from it as long as what stands there still does. -/
theorem map_get?_of_grows {α β : Type} {b b' : Bucket α}
    (h : ∀ key x, b.get? key = some x → b'.get? key = some x) {read : α → β} {key : List UInt8}
    {value : β} (hvalue : (b.get? key).map read = some value) :
    (b'.get? key).map read = some value := by
  obtain ⟨x, hx, rfl⟩ := Option.map_eq_some_iff.1 hvalue
  rw [h key x hx, Option.map_some]

theorem Truthful.grows {d d' : Database} {op : Operation} {answer : Answer}
    (h : Truthful d op answer) (hgrows : Grows d d') : Truthful d' op answer :=
  ⟨fun id r hop hanswer => map_get?_of_grows hgrows.runs (h.run id r hop hanswer),
    fun id list hop hanswer => map_get?_of_grows hgrows.records (h.records id list hop hanswer)⟩

/-- What is put under a free key leaves the others alone. -/
theorem get?_put_of_none {α : Type} {b : Bucket α} {free key : List UInt8} {x : α}
    (hfree : b.get? free = none) (value : α) (h : b.get? key = some x) :
    (b.put free value).get? key = some x := by
  have hne : key ≠ free := by
    rintro rfl
    rw [hfree] at h
    cases h
  rw [Bucket.get?_put, if_neg hne]
  exact h

/-- Every change lets what is stored grow, and is told of truthfully. -/
theorem Change.grows {s s' : Shelf} {op : Operation} {answer : Answer}
    (h : Change s op answer s') :
    Grows s.database s'.database ∧ Truthful s'.database op answer := by
  cases h with
  | keep hdatabase _ _ _ htrue =>
    rw [hdatabase]
    exact ⟨⟨fun _ _ h => h, fun _ _ h => h⟩, htrue⟩
  | begin hdatabase _ =>
    rw [hdatabase]
    exact ⟨⟨fun _ _ h => h, fun _ _ h => h⟩, by rintro _ _ _ ⟨⟩, by rintro _ _ _ ⟨⟩⟩
  | store _ hruns hrecords hdatabase _ =>
    rw [hdatabase]
    exact ⟨⟨fun _ _ => get?_put_of_none hruns _, fun _ _ => get?_put_of_none hrecords _⟩,
      by rintro _ _ _ ⟨⟩, by rintro _ _ _ ⟨⟩⟩

theorem keyOf_lt_iff {m n : Nat} (hm : m < UInt64.size) (hn : n < UInt64.size) :
    Database.keyOf m < Database.keyOf n ↔ m < n := by
  rw [Database.keyOf, Database.keyOf, bigEndian_lt_iff, bytes_of_key, Nat.mod_eq_of_lt hm,
    Nat.mod_eq_of_lt hn]

theorem keyOf_inj {m n : Nat} (hm : m < UInt64.size) (hn : n < UInt64.size) :
    Database.keyOf m = Database.keyOf n ↔ m = n := by
  constructor
  · rw [← bytes_of_key] at hm hn
    exact bigEndian_inj hm hn
  · rintro rfl
    rfl

/-- What is stored agrees with the numbers that were given out, with those of the runs that were
    finished, and with those that recorders hold: numbers were given out in order, and exactly the
    runs that were finished stand in either bucket, each under its own key. -/
structure Consistent (begun finished ids : List Nat) (d : Database) : Prop where
  issued : d.issued = begun.length % UInt64.size
  begun : begun = (List.range begun.length).map fun n => (n + 1) % UInt64.size
  ids_lt : ∀ id ∈ ids, id < UInt64.size
  finished_lt : ∀ id ∈ finished, id < UInt64.size
  once : finished.Nodup
  runs : ∀ id < UInt64.size, (∃ r, d.runs.get? (Database.keyOf id) = some r) ↔ id ∈ finished
  records : ∀ id < UInt64.size,
    (∃ list, d.records.get? (Database.keyOf id) = some list) ↔ id ∈ finished
  keyed : ∀ key r, d.runs.get? key = some r →
    r.value.id < UInt64.size ∧ key = Database.keyOf r.value.id

namespace Consistent

variable {begun finished ids : List Nat} {d : Database}

theorem empty : Consistent [] [] [] .empty where
  issued := rfl
  begun := rfl
  ids_lt := by rintro id ⟨⟩
  finished_lt := by rintro id ⟨⟩
  once := .nil
  runs id _ := ⟨by rintro ⟨r, ⟨⟩⟩, by rintro ⟨⟩⟩
  records id _ := ⟨by rintro ⟨list, ⟨⟩⟩, by rintro ⟨⟩⟩
  keyed := by rintro key r ⟨⟩

theorem next_eq (h : Consistent begun finished ids d) :
    d.next = (begun.length + 1) % UInt64.size := by
  rw [Database.next, h.issued, Nat.mod_add_mod]

/-- The next number may be given out. -/
theorem begin (h : Consistent begun finished ids d) :
    Consistent (begun ++ [d.next]) finished (ids ++ [d.next]) { d with issued := d.next } where
  issued := by
    rw [List.length_append, List.length_singleton]
    exact h.next_eq
  begun := by
    rw [List.length_append, List.length_singleton, List.range_succ, List.map_append, ← h.begun,
      List.map_singleton, h.next_eq]
  ids_lt := by
    intro id hid
    rcases List.mem_append.1 hid with hid | hid
    · exact h.ids_lt id hid
    · rw [List.mem_singleton.1 hid]
      exact Nat.mod_lt _ (by decide)
  finished_lt := h.finished_lt
  once := h.once
  runs := h.runs
  records := h.records
  keyed := h.keyed

/-- One more value under a key: exactly one more number is found. -/
theorem exists_get?_put {α : Type} {b : Bucket α} {n : Nat} (hn : n < UInt64.size)
    (h : ∀ id < UInt64.size, (∃ x, b.get? (Database.keyOf id) = some x) ↔ id ∈ finished) (value : α)
    (id : Nat) (hid : id < UInt64.size) :
    (∃ x, (b.put (Database.keyOf n) value).get? (Database.keyOf id) = some x)
      ↔ id ∈ finished ++ [n] := by
  rw [Bucket.get?_put, List.mem_append, List.mem_singleton, ← h id hid]
  by_cases heq : id = n
  · simp [heq]
  · rw [if_neg (mt (keyOf_inj hid hn).1 heq)]
    simp [heq]

/-- The run of a recorder may be stored with its records, if it is not stored yet. -/
theorem store (h : Consistent begun finished ids d) {r : Run} (hmem : r.id ∈ ids)
    (hfree : d.runs.get? (Database.keyOf r.id) = none) (list : Bucket (Stored Record)) :
    Consistent begun (finished ++ [r.id]) ids
      { d with
        runs := d.runs.put (Database.keyOf r.id) (.of r)
        records := d.records.put (Database.keyOf r.id) list } := by
  have hlt : r.id < UInt64.size := h.ids_lt r.id hmem
  have hnew : r.id ∉ finished := by
    intro hfinished
    obtain ⟨r', hr'⟩ := (h.runs r.id hlt).2 hfinished
    rw [hfree] at hr'
    cases hr'
  exact {
    issued := h.issued
    begun := h.begun
    ids_lt := h.ids_lt
    finished_lt := by
      intro id hid
      rcases List.mem_append.1 hid with hid | hid
      · exact h.finished_lt id hid
      · rw [List.mem_singleton.1 hid]
        exact hlt
    once := by
      rw [List.nodup_append]
      refine ⟨h.once, List.pairwise_singleton _ _, ?_⟩
      rintro id hid id' hid' rfl
      rw [List.mem_singleton.1 hid'] at hid
      exact hnew hid
    runs := exists_get?_put hlt h.runs (.of r)
    records := exists_get?_put hlt h.records list
    keyed := by
      intro key r' hr'
      rw [Bucket.get?_put] at hr'
      split at hr'
      · rename_i hkey
        cases hr'
        rw [Stored.value_of]
        exact ⟨hlt, hkey⟩
      · exact h.keyed key r' hr' }

end Consistent

/-- What is stored agrees with what was asked and answered, and every answer is still true. -/
structure Faithful (log : Log) (s : Shelf) : Prop where
  consistent : Consistent (begunIds log) (finishedIds log) s.ids s.database
  told : ∀ entry ∈ log, Truthful s.database entry.1 entry.2

theorem Faithful.change {log : Log} {s s' : Shelf} {op : Operation} {answer : Answer}
    (h : Faithful log s) (hchange : Change s op answer s') :
    Faithful (log ++ [(op, answer)]) s' := by
  obtain ⟨hgrows, htrue⟩ := hchange.grows
  refine ⟨?_, ?_⟩
  · rw [begunIds_concat, finishedIds_concat]
    cases hchange with
    | keep hdatabase hids hbegun hfinished _ =>
      rw [hdatabase, hids, hbegun, hfinished, Option.toList_none, List.append_nil, List.append_nil]
      exact h.consistent
    | begin hdatabase hids =>
      rw [hdatabase, hids]
      have hbegin := h.consistent.begin
      rw [← List.append_nil (finishedIds log)] at hbegin
      exact hbegin
    | @store _ r records hmem hruns _ hdatabase hids =>
      rw [hdatabase, hids]
      have hstore := h.consistent.store hmem hruns records
      rw [← List.append_nil (begunIds log)] at hstore
      exact hstore
  · intro entry hentry
    rcases List.mem_append.1 hentry with hentry | hentry
    · exact (h.told entry hentry).grows hgrows
    · rw [List.mem_singleton.1 hentry]
      exact htrue

/-- Whatever is asked, in whatever order, what is stored agrees with the log. -/
theorem Faithful.after {before : Log} {s : Shelf} (h : Faithful before s) (ops : List Operation) :
    Faithful (before ++ s.log ops) (s.after ops) := by
  induction ops generalizing before s with
  | nil =>
    rw [log, List.append_nil]
    exact h
  | cons op rest ih =>
    have hnext := ih (h.change (s.perform_change op))
    rw [List.append_assoc, List.singleton_append] at hnext
    exact hnext

/-! ## What an open archive shows -/

/-- An open archive shows exactly the runs with some numbers: each of them can be asked for, alone
    and with its records, all of them are listed by rising number, and the last one is the one with
    the greatest number. -/
structure Shows (a : Archive) (stored : List Nat) : Prop where
  run : ∀ id < UInt64.size, (∃ r, a.run id = .ok r) ↔ id ∈ stored
  records : ∀ id < UInt64.size, (∃ list, a.records id = .ok list) ↔ id ∈ stored
  runs : ∃ list, a.runs = .ok list ∧ list.Pairwise (fun r r' => r.id < r'.id) ∧
    (∀ r, r ∈ list ↔ r.id < UInt64.size ∧ a.run r.id = .ok r) ∧
    (∀ id, id ∈ list.map (·.id) ↔ id ∈ stored) ∧
    ∀ r, a.last = .ok r ↔ r ∈ list ∧ ∀ r' ∈ list, r'.id ≤ r.id
  last : a.last = .error .noRuns ↔ stored = []

/-- Keys that are numbers come in the order of the numbers. -/
theorem Consistent.values_sorted {begun finished ids : List Nat} {d : Database}
    (h : Consistent begun finished ids d) :
    (d.runs.values.map Stored.value).Pairwise fun r r' => r.id < r'.id := by
  rw [Bucket.values, List.map_map, List.pairwise_map]
  refine d.runs.sorted.imp_of_mem ?_
  intro entry entry' hentry hentry' hlt
  obtain ⟨hid, hkey⟩ := h.keyed _ _ (Bucket.get?_eq_some_iff.2 hentry)
  obtain ⟨hid', hkey'⟩ := h.keyed _ _ (Bucket.get?_eq_some_iff.2 hentry')
  rw [hkey, hkey', keyOf_lt_iff hid hid'] at hlt
  exact hlt

theorem Consistent.mem_values_iff {begun finished ids : List Nat} {d : Database}
    (h : Consistent begun finished ids d) {r : Run} :
    r ∈ d.runs.values.map Stored.value ↔
      r.id < UInt64.size ∧ (d.runs.get? (Database.keyOf r.id)).map Stored.value = some r := by
  rw [List.mem_map, Option.map_eq_some_iff]
  constructor
  · rintro ⟨stored, hmem, rfl⟩
    obtain ⟨key, hkey⟩ := Bucket.mem_values_iff.1 hmem
    obtain ⟨hlt, rfl⟩ := h.keyed key stored hkey
    exact ⟨hlt, stored, hkey, rfl⟩
  · rintro ⟨-, stored, hstored, rfl⟩
    exact ⟨stored, Bucket.mem_values_iff.2 ⟨_, hstored⟩, rfl⟩

theorem Consistent.shows {begun finished ids : List Nat} {a : Archive}
    (h : Consistent begun finished ids a.database) (hopen : a.isOpen = true) :
    Shows a finished := by
  have hrun : ∀ {id r}, a.run id = .ok r ↔
      (a.database.runs.get? (Database.keyOf id)).map Stored.value = some r := by
    intro id r
    rw [Archive.run_eq_ok_iff]
    exact and_iff_right hopen
  have hids : ∀ id, id ∈ (a.database.runs.values.map Stored.value).map (·.id) ↔
      id ∈ finished := by
    intro id
    rw [List.mem_map]
    constructor
    · rintro ⟨r, hr, rfl⟩
      obtain ⟨hlt, hstored⟩ := h.mem_values_iff.1 hr
      obtain ⟨stored, hget, -⟩ := Option.map_eq_some_iff.1 hstored
      exact (h.runs r.id hlt).1 ⟨stored, hget⟩
    · intro hid
      have hlt := h.finished_lt id hid
      obtain ⟨stored, hget⟩ := (h.runs id hlt).2 hid
      -- What stands under the key of a number is the run with this number.
      obtain ⟨hlt', hkey⟩ := h.keyed _ stored hget
      have hsame : id = stored.value.id := (keyOf_inj hlt hlt').1 hkey
      refine ⟨stored.value, h.mem_values_iff.2 ⟨hlt', ?_⟩, hsame.symm⟩
      rw [← hsame, hget, Option.map_some]
  refine ⟨?_, ?_, ⟨a.database.runs.values.map Stored.value,
    Archive.runs_eq_ok_iff.2 ⟨hopen, rfl⟩, h.values_sorted, ?_, hids, ?_⟩, ?_⟩
  · intro id hid
    rw [← h.runs id hid]
    simp [hrun]
  · intro id hid
    rw [← h.records id hid]
    simp [Archive.records_eq_ok_iff, hopen]
  · intro r
    rw [hrun]
    exact h.mem_values_iff
  · intro r
    rw [← getLast?_eq_some_iff_of_pairwise h.values_sorted, Archive.last_of_open hopen]
    cases (a.database.runs.values.map Stored.value).getLast? <;> simp
  · have hnone : a.database.runs.values.map Stored.value = [] ↔ finished = [] := by
      rw [List.eq_nil_iff_forall_not_mem (l := finished), ← List.map_eq_nil_iff,
        List.eq_nil_iff_forall_not_mem]
      exact forall_congr' fun id => not_congr (hids id)
    rw [← hnone, ← List.getLast?_eq_none_iff, Archive.last_of_open hopen]
    cases (a.database.runs.values.map Stored.value).getLast? <;> simp

/-- **The archive only grows, and its buckets stay in step.** Whatever is asked of an empty archive
    and the recorders of its runs, in whatever order:

      * numbers are given out in order, beginning with one;
      * no number is finished twice;
      * while it is open, the archive shows exactly the runs that were finished;
      * two answers about the same run, or about its records, are the same;
      * an operation that is refused leaves the archive exactly as it was. -/
theorem append_only (ops : List Operation) :
    begunIds (empty.log ops)
        = (List.range (begunIds (empty.log ops)).length).map (fun n => (n + 1) % UInt64.size) ∧
      (finishedIds (empty.log ops)).Nodup ∧
      ((empty.after ops).archive.isOpen = true →
        Shows (empty.after ops).archive (finishedIds (empty.log ops))) ∧
      (∀ id r r', (.run id, .run r) ∈ empty.log ops → (.run id, .run r') ∈ empty.log ops →
        r = r') ∧
      (∀ id list list', (.records id, .records list) ∈ empty.log ops →
        (.records id, .records list') ∈ empty.log ops → list = list') ∧
      ∀ op f, ((empty.after ops).perform op).1 = .fault f →
        ((empty.after ops).perform op).2.archive = (empty.after ops).archive := by
  have hempty : Faithful [] empty := ⟨.empty, by rintro entry ⟨⟩⟩
  obtain ⟨hconsistent, htold⟩ := hempty.after ops
  rw [List.nil_append] at hconsistent htold
  refine ⟨hconsistent.begun, hconsistent.once, hconsistent.shows, ?_, ?_, fun op f => perform_fault⟩
  · intro id r r' hr hr'
    have hstored := (htold _ hr).run id r rfl rfl
    have hstored' := (htold _ hr').run id r' rfl rfl
    rw [hstored] at hstored'
    exact Option.some.inj hstored'
  · intro id list list' hlist hlist'
    have hstored := (htold _ hlist).records id list rfl rfl
    have hstored' := (htold _ hlist').records id list' rfl rfl
    rw [hstored] at hstored'
    exact Option.some.inj hstored'

/-- Two runs are begun and finished in the other order, one of them twice; the archive is closed and
    opened again before it is asked. -/
def crossedRuns : List Operation :=
  [.begin "p" "first" "", .begin "p" "second" "", .enter 1 1 "f" [],
    .finish 1 ⟨none, 1, none, none⟩, .finish 0 ⟨none, 0, none, none⟩,
    .finish 1 ⟨none, 2, none, none⟩, .close, .run 2, .reopen, .run 2]

theorem append_only_crossed :
    begunIds (empty.log crossedRuns) = [1, 2] ∧ finishedIds (empty.log crossedRuns) = [2, 1] ∧
      Shows (empty.after crossedRuns).archive [2, 1] := by
  have hfinished : finishedIds (empty.log crossedRuns) = [2, 1] := rfl
  have hshows := (append_only crossedRuns).2.2.1 rfl
  rw [hfinished] at hshows
  exact ⟨rfl, hfinished, hshows⟩

end Shelf

end Clausal
