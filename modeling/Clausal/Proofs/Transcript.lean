/-
  Clausal.Proofs.Transcript

  What is printed while a program runs is what is printed of its records later. Two printers tell of
  the same calls, one from the terms and failures as they come, the other from texts that were
  stored and read back. As long as no term is missing they agree on every event
  (`Event.line_record`), and no term goes missing on the way (`wholeContents_kept`). What the
  records add up to follows from the events being well bracketed: a call is left at a depth at which
  one was entered (`Event.deepest_of_replay`), and only a failure that goes through all open calls
  tells of failures (`Summary.tells_of_told`).
-/
import Clausal.Archive.Ending
import Clausal.Archive.Summary
import Clausal.Proofs.Archives
import Clausal.Proofs.Cutoff
import Clausal.Proofs.Grouping
import Clausal.Proofs.Wholeness

namespace Clausal

open Event

/-! ## Events and their records -/

/-- Events as they are told of: failures by their messages. -/
def told (events : List (Event Failure)) : List (Event String) :=
  events.map (Event.mapError Failure.message)

namespace Event

/-- An event prints as its record does. -/
theorem line_record {ev : Event Failure} (h : wholeContents.OfEvent ev) (colour : Bool) :
    ev.record.line colour = (ev.mapError Failure.message).line colour := by
  cases ev with
  | enter depth name args => rfl
  | leave depth name result =>
    cases result with
    | error f => rfl
    | ok t =>
      have ht : t.Whole := h
      have hrecord : (Event.leave depth name (.ok t) : Event Failure).record
          = ⟨.result, depth, name, [], t.render, ""⟩ := Record.left_ok ht.ne_hole depth name
      rw [hrecord, mapError]
      simp only [Except.mapError, Record.line, line, Term.shown, ht.side_eq, Int.toNat_natCast]

theorem lines_record {events : List (Event Failure)}
    (h : ∀ ev ∈ events, wholeContents.OfEvent ev) (colour : Bool) :
    Record.lines colour (events.map record) = lines colour (told events) := by
  rw [Record.lines, lines, told, List.map_map, List.map_map]
  exact congrArg String.join (List.map_congr_left fun ev hev => line_record (h ev hev) colour)

theorem depth_record (ev : Event Failure) : ev.record.depth = ev.depth := by
  cases ev with
  | enter depth name args => rfl
  | leave depth name result =>
    rcases result with f | t
    · rfl
    · cases t <;> rfl

theorem kind_record (ev : Event Failure) :
    ev.record.kind = if ev.isEnter then .call else if ev.isFail then .fail else .result := by
  cases ev with
  | enter depth name args => rfl
  | leave depth name result =>
    rcases result with f | t
    · rfl
    · cases t <;> rfl

/-- The calls that are open stand no deeper than one that was entered, and so does every call that
    is told of. -/
theorem deepest_of_replay {events : List (Event Failure)} {calls : List OpenCall}
    (h : replay [] events = some calls) :
    (events.map depth).foldl max 0 = (enterDepths events).foldl max 0 ∧
      calls.length ≤ (enterDepths events).foldl max 0 := by
  induction events using List.reverseRecOn generalizing calls with
  | nil =>
    cases h
    exact ⟨rfl, le_rfl⟩
  | append_singleton earlier ev ih =>
    rw [replay_append] at h
    obtain ⟨between, hbetween, hlast⟩ := Option.bind_eq_some_iff.1 h
    rw [replay_cons] at hlast
    obtain ⟨calls', htrack, hnil⟩ := Option.bind_eq_some_iff.1 hlast
    cases hnil
    obtain ⟨hsame, hlength⟩ := ih hbetween
    have hdepths : enterDepths (earlier ++ [ev]) = enterDepths earlier ++ enterDepths [ev] :=
      List.filterMap_append
    rw [List.map_append, List.foldl_append, hsame, hdepths, List.foldl_append]
    cases ev with
    | enter d name args =>
      obtain ⟨rfl, rfl⟩ := track_enter_iff.1 htrack
      exact ⟨rfl, le_max_right _ _⟩
    | leave d name result =>
      -- The call that is left was open.
      obtain ⟨c, rfl, rfl, -⟩ := track_leave_iff.1 htrack
      rw [List.length_cons] at hlength
      exact ⟨max_eq_left hlength, (Nat.le_succ _).trans hlength⟩

theorem countP_isFail_closing (f : Failure) (calls : List OpenCall) :
    (closing f calls).countP isFail = calls.length := by
  induction calls with
  | nil => rfl
  | cons c rest ih => rw [closing, List.countP_cons_of_pos rfl, ih, List.length_cons]

end Event

/-! ## Summaries -/

namespace Summary

/-- What the records of an operation add up to: the calls that it counts, the greatest depth at
    which one is entered, and as many failures as calls were open when it failed, if it did. -/
structure Tells (s : Summary) (events : List (Event Failure)) (steps : Nat)
    (failure? : Option Failure) : Prop where
  calls : s.calls = steps
  maxDepth : s.maxDepth = ((enterDepths events).max?.getD 0 : Nat)
  succeeded : failure? = none → s.failures = 0
  failed : ∀ f, failure? = some f → ∃ earlier calls, events = earlier ++ closing f calls ∧
    replay [] earlier = some calls ∧ (∀ ev ∈ earlier, ev.isFail = false) ∧
    s.failures = calls.length

theorem calls_ofRecords (events : List (Event Failure)) :
    (ofRecords (events.map record)).calls = Machine.enters events := by
  simp only [ofRecords, calledNames]
  rw [List.length_map, ← List.countP_eq_length_filter, List.countP_map, Machine.enters]
  refine List.countP_congr fun ev _ => ?_
  rw [Function.comp_apply, kind_record]
  cases ev.isEnter <;> cases ev.isFail <;> simp

theorem failures_ofRecords (events : List (Event Failure)) :
    (ofRecords (events.map record)).failures = events.countP isFail := by
  simp only [ofRecords]
  rw [List.countP_map]
  refine List.countP_congr fun ev _ => ?_
  rw [Function.comp_apply, kind_record]
  cases ev with
  | enter depth name args => simp [isEnter, isFail]
  | leave depth name result => rcases result with f | t <;> simp [isEnter, isFail]

theorem maxDepth_ofRecords {events : List (Event Failure)} {calls : List OpenCall}
    (h : replay [] events = some calls) :
    (ofRecords (events.map record)).maxDepth = ((enterDepths events).max?.getD 0 : Nat) := by
  have hdepths : (events.map record).map (·.depth) = (events.map depth).map Nat.cast := by
    rw [List.map_map, List.map_map]
    exact List.map_congr_left fun ev _ => depth_record ev
  have hcast : (events.map depth).foldl (fun (x : Int) (y : Nat) => max x y) (0 : Nat)
      = ((events.map depth).foldl max 0 : Nat) :=
    List.foldl_hom Nat.cast fun x y => by omega
  simp only [ofRecords]
  rw [hdepths, List.foldl_map]
  refine hcast.trans (congrArg Nat.cast ?_)
  rw [(deepest_of_replay h).1, List.foldl_max, Nat.zero_max]

/-- An account of an operation that is in order adds up to it. -/
theorem tells_of_told {before after : Evaluator} {events : List (Event Failure)}
    {failure? : Option Failure} (h : before.Told after events failure?) (hnew : before.steps = 0) :
    (ofRecords (events.map record)).Tells events after.steps failure? where
  calls := by
    rw [calls_ofRecords, ← h.entered, hnew, Nat.zero_add]
  maxDepth := maxDepth_ofRecords h.replayed
  succeeded hnone := by
    rw [failures_ofRecords, List.countP_eq_zero]
    intro ev hev
    rw [h.succeeded hnone ev hev]
    exact Bool.false_ne_true
  failed f hf := by
    obtain ⟨earlier, calls, hevents, hreplayed, hsound, -⟩ := h.failed f hf
    refine ⟨earlier, calls, hevents, hreplayed, hsound, ?_⟩
    have hnone : earlier.countP isFail = 0 := by
      rw [List.countP_eq_zero]
      intro ev hev
      rw [hsound ev hev]
      exact Bool.false_ne_true
    rw [failures_ofRecords, hevents, List.countP_append, hnone, countP_isFail_closing, Nat.zero_add]

end Summary

/-! ## Recording -/

namespace Recorder

theorem addEvents_eq (r : Recorder) (events : List (Event String)) :
    r.addEvents events
      = { r with recent := (events.map Record.ofEvent).reverse ++ r.recent } := by
  induction events generalizing r with
  | nil => rfl
  | cons ev events ih =>
    have hnext : r.addEvents (ev :: events) = (r.add (.ofEvent ev)).addEvents events := rfl
    rw [hnext, ih, add, List.map_cons, List.reverse_cons, List.append_assoc]
    rfl

/-- What a recorder has kept is read back once it has been finished. -/
theorem records_of_finish {r : Recorder} {a a' : Archive} {ending : Ending}
    (h : (r.finish a ending).1 = .ok a') (hroom : r.recent.length ≤ UInt64.size) :
    a'.records r.run.id = .ok r.recent.reverse := by
  simp only [finish] at h
  split at h
  · obtain ⟨-, -, hsaved⟩ := Archive.save_ok h
    have hopen : a'.isOpen = a.isOpen := by rw [hsaved]
    refine Archive.records_eq_ok_iff.2 ⟨hopen.trans (Archive.isOpen_of_save h), ?_⟩
    have hrecent : (r.recent.reverse.map (.of : Record → Stored Record)).length ≤ UInt64.size := by
      rwa [List.length_map, List.length_reverse]
    rw [hsaved]
    simp only [ended, Bucket.get?_put, if_true, Option.map_some, Bucket.values_numbered hrecent,
      Stored.map_value_of]
  · cases h

/-- However a recorder is finished that was told of some events, what is then read back prints like
    the events, in colour or without, and its summary has a property. -/
def Transcribes (r : Recorder) (events : List (Event Failure)) (holds : Summary → Prop) : Prop :=
  ∀ (a a' : Archive) (ending : Ending),
    ((r.addEvents (told events)).finish a ending).1 = .ok a' →
    ∃ list, a'.records r.run.id = .ok list ∧
      (∀ colour, Record.lines colour list = Event.lines colour (told events)) ∧
      holds (Summary.ofRecords list)

/-- A new recorder transcribes events of whole terms. -/
theorem transcribes {r : Recorder} (hnew : r.recent = []) {events : List (Event Failure)}
    (hwhole : ∀ ev ∈ events, wholeContents.OfEvent ev) (hroom : events.length ≤ UInt64.size)
    {holds : Summary → Prop} (hsummary : holds (Summary.ofRecords (events.map record))) :
    r.Transcribes events holds := by
  intro a a' ending hfinish
  have hkept : (r.addEvents (told events)).recent = (events.map record).reverse := by
    rw [addEvents_eq, hnew, List.append_nil, told, List.map_map]
    rfl
  have hid : (r.addEvents (told events)).run.id = r.run.id := by rw [addEvents_eq]
  have hrecords := records_of_finish hfinish (by simpa [hkept] using hroom)
  rw [hkept, List.reverse_reverse, hid] at hrecords
  exact ⟨_, hrecords, lines_record hwhole, hsummary⟩

end Recorder

theorem Archive.recent_of_begin {a a' : Archive} {program label time : String} {r : Recorder}
    (h : a.begin program label time = .ok (r, a')) : r.recent = [] := by
  unfold begin at h
  cases hopen : a.isOpen with
  | true =>
    rw [access_of_open hopen] at h
    cases h
    rfl
  | false =>
    rw [access_of_closed hopen] at h
    cases h

namespace Evaluator

theorem steps_interpret (e : Evaluator) (hnew : e.steps = 0) :
    e.interpret.steps = e.interpret.evaluator.steps := by
  unfold interpret
  split
  · exact hnew.symm
  · rcases interpretFrom_eq e (.app [.ident e.config.entryName, e.config.seedTerm])
      e.config.patience with heq | ⟨v, -, heq⟩ <;>
      · rw [heq]
        rfl

/-- **What is printed while a program runs is what is printed of its records.** Let no term be
    missing in the declarations of a program. Then for every term of which nothing is missing, and
    for every run of the program from a seed of which nothing is missing, a recorder that is told of
    what happens transcribes it: once it is finished, its records print like the events did, in
    colour or without. If the evaluation ends, their summary has as many calls as the evaluation
    counts, the greatest depth at which a call was entered, and no failures or, if the evaluation
    fails, as many as calls were open then.

    Records are stored under numbers of 64 bits, so there may not be more events than that. -/
theorem recorded_as_printed {config : Config} {ds : List Term} {p : Program}
    (hload : Program.load config.linear ds = .ok p) (hds : ∀ d ∈ ds, d.Whole) (signal : Signal)
    {a a' : Archive} {program label time : String} {recorder : Recorder}
    (hbegin : a.begin program label time = .ok (recorder, a')) :
    (∀ (t : Term) (run : Evaluation), t.Whole → (new p config signal).reduce t = run →
      run.events.length ≤ UInt64.size →
      recorder.Transcribes run.events fun s => run.outcome ≠ .unfinished →
        s.Tells run.events run.evaluator.steps run.outcome.failure?) ∧
    ∀ run : Interpretation, config.seedTerm.Whole → (new p config signal).interpret = run →
      run.events.length ≤ UInt64.size →
      recorder.Transcribes run.events fun s => run.verdict ≠ .unfinished →
        s.Tells run.events run.steps run.verdict.failure? := by
  have hprogram : wholeContents.OfProgram (new p config signal).program :=
    wholeContents_load hload hds
  have hnew := Archive.recent_of_begin hbegin
  constructor
  · rintro t run ht rfl hroom
    have hwhole := Contents.ofEvaluation_reduce wholeContents_kept hprogram (fun _ _ => trivial) ht
    exact Recorder.transcribes hnew hwhole.events hroom fun hends =>
      Summary.tells_of_told (reduce_told rfl hends) rfl
  · rintro run hseed rfl hroom
    refine Recorder.transcribes hnew (interpret_whole hprogram hseed) hroom fun hends => ?_
    rw [steps_interpret _ rfl]
    exact Summary.tells_of_told (interpret_told rfl hends) rfl

/-- A run that fails two calls deep is stored, and told of by its records as it was while it ran. -/
theorem recorded_as_printed_stray :
    ∃ recorder a run a' list,
      (Archive.ofDatabase .empty).begin "keep" "stray" "now" = .ok (recorder, a) ∧
      (new keepProgram .bare .quiet).reduce strayTerm = run ∧
      ((recorder.addEvents (told run.events)).finish a run.ending).1 = .ok a' ∧
      a'.records recorder.run.id = .ok list ∧
      (∀ colour, Record.lines colour list = Event.lines colour (told run.events)) ∧
      (Summary.ofRecords list).Tells run.events 2 (some strayFailure) := by
  have hreduce : (new keepProgram .bare .quiet).reduce strayTerm = _ :=
    finish_of_iterate 12 rfl (by decide)
  have hwhole : ∀ d ∈ keepDeclarations, d.Whole := by simp [keepDeclarations]
  have hterm : strayTerm.Whole := by simp [strayTerm]
  have hload : Program.load Config.bare.linear keepDeclarations = .ok keepProgram := rfl
  have hbegin : (Archive.ofDatabase .empty).begin "keep" "stray" "now" = .ok
      (⟨0, ⟨1, "keep", "stray", "now", "", 0, ""⟩, []⟩, ⟨⟨1, .empty, .empty⟩, 0, true⟩) := rfl
  have hroom : ((new keepProgram .bare .quiet).reduce strayTerm).events.length ≤ UInt64.size := by
    rw [hreduce]
    decide
  have hfinish : ∀ (events : List (Event String)) (ending : Ending), ∃ a',
      ((Recorder.addEvents ⟨0, ⟨1, "keep", "stray", "now", "", 0, ""⟩, []⟩ events).finish
        ⟨⟨1, .empty, .empty⟩, 0, true⟩ ending).1 = .ok a' := by
    intro events ending
    rw [Recorder.addEvents_eq]
    exact ⟨_, rfl⟩
  obtain ⟨a', hfinish⟩ := hfinish (told ((new keepProgram .bare .quiet).reduce strayTerm).events)
    ((new keepProgram .bare .quiet).reduce strayTerm).ending
  obtain ⟨list, hrecords, hlines, htells⟩ :=
    (recorded_as_printed hload hwhole .quiet hbegin).1 strayTerm _ hterm rfl hroom _ _ _ hfinish
  have houtcome : ((new keepProgram .bare .quiet).reduce strayTerm).outcome
      = .failure strayFailure := by
    rw [hreduce]
    rfl
  have hsteps : ((new keepProgram .bare .quiet).reduce strayTerm).evaluator.steps = 2 := by
    rw [hreduce]
    rfl
  rw [houtcome, hsteps] at htells
  exact ⟨_, _, _, a', list, hbegin, rfl, hfinish, hrecords, hlines, htells (by simp)⟩

end Evaluator

end Clausal
