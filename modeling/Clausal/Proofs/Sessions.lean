/-
  Clausal.Proofs.Sessions

  A session is the fold of the declarations that it accepted. Whatever lines it is given, and
  whatever interrupts are raised between them or while they are carried out, what it has declared is
  what it began with, followed by what was read off each line that declares something and was not
  refused; and its program is the one that loading all of this gives.

    * `Session.execute_declared` and `Session.execute_kept` say what one line does to a session;
    * `Session.after_declared` carries this through a whole list of lines, by induction on it;
    * `Session.execute_answers` says what an expression is answered with.
-/
import Clausal.Proofs.Run
import Clausal.Proofs.Spelling
import Clausal.Session

namespace Clausal

open Grammar

namespace Session

/-! ## Lines in order -/

/-- A line as it is given: in colour or not, and with the interrupt as it stands then, whatever the
    lines before it have left of it. -/
structure Given where
  line : Text
  colour : Bool
  signal : Signal

/-- What a line is taken for. -/
def Given.route (g : Given) : Route := Route.of g.line.trim

/-- What is read off a line that declares something. -/
def Given.declared (g : Given) : List Term :=
  match parseProgram g.line.trim "" with
  | .ok ds => ds
  | .error _ => []

def reply (s : Session) (g : Given) : Reply := s.execute g.colour g.line g.signal

/-- What comes of some lines, one after the other. -/
def replies (s : Session) : List Given → List Reply
  | [] => []
  | g :: rest => s.reply g :: (s.reply g).session.replies rest

/-- The session after some lines. -/
def after (s : Session) (given : List Given) : Session :=
  given.foldl (fun s g => (s.reply g).session) s

/-- A line that declares something and is not refused. -/
def Accepted (g : Given) (r : Reply) : Prop := g.route = .declaration ∧ r.fault.isNone = true

instance (g : Given) (r : Reply) : Decidable (Accepted g r) :=
  inferInstanceAs (Decidable (_ ∧ _))

/-- What is read off the lines that are accepted, in order. -/
def accepted (given : List Given) (replies : List Reply) : List Term :=
  (given.zip replies).flatMap fun (g, r) => if Accepted g r then g.declared else []

/-! ## One line -/

theorem start_eq_ok_iff {config : Config} {ds : List Term} {s : Session} :
    start config ds = .ok s ↔ ∃ p, Program.load config.linear ds = .ok p ∧ s = ⟨config, ds, p⟩ := by
  unfold start
  cases Program.load config.linear ds with
  | error e => simp [bind, Except.bind]
  | ok p => simp [bind, Except.bind, pure, Except.pure, eq_comm]

/-- A line is carried out as what it is taken for. -/
theorem reply_eq (s : Session) (g : Given) :
    s.reply g =
      match g.route with
      | .blank => s.prints g.signal ""
      | .command => s.commandLine g.signal g.line.trim
      | .declaration => s.declareLine g.signal g.line.trim
      | .expression => s.evaluateLine g.signal g.colour g.line.trim :=
  rfl

/-- A line that is not a declaration leaves the session as it was. -/
theorem execute_kept {s : Session} {g : Given} (h : g.route ≠ .declaration) :
    (s.reply g).session = s := by
  rw [reply_eq]
  cases hroute : g.route with
  | blank => rfl
  | command =>
    simp only [commandLine]
    split <;> rfl
  | declaration => exact absurd hroute h
  | expression =>
    simp only [evaluateLine]
    split
    · rfl
    · split <;> rfl

/-- A line that is a declaration is refused as a whole, or all that is read off it is declared. -/
theorem execute_declared {s : Session} {g : Given} (h : g.route = .declaration) :
    ((s.reply g).fault ≠ none ∧ (s.reply g).session = s) ∨
      (s.reply g).fault = none ∧
        start s.config (s.declarations ++ g.declared) = .ok (s.reply g).session := by
  rw [reply_eq, h, Given.declared]
  simp only [declareLine]
  cases hparse : parseProgram g.line.trim "" with
  | error e => exact .inl ⟨by simp [refuses], rfl⟩
  | ok more =>
    simp only
    cases hdeclare : s.declare more with
    | error e => exact .inl ⟨by simp [refuses], rfl⟩
    | ok s' => exact .inr ⟨rfl, hdeclare⟩

/-- A line that is refused leaves the session as it was. -/
theorem execute_refused {s : Session} {g : Given} (h : (s.reply g).fault ≠ none) :
    (s.reply g).session = s := by
  by_cases hroute : g.route = .declaration
  · rcases execute_declared hroute with ⟨-, hsame⟩ | ⟨hnone, -⟩
    · exact hsame
    · exact absurd hnone h
  · exact execute_kept hroute

/-! ## A whole session -/

/-- The program of a session is what loading its declarations gives. -/
def Loaded (s : Session) : Prop := Program.load s.config.linear s.declarations = .ok s.program

theorem Loaded.of_start {config : Config} {ds : List Term} {s : Session}
    (h : start config ds = .ok s) : s.Loaded ∧ s.config = config ∧ s.declarations = ds := by
  obtain ⟨p, hp, rfl⟩ := start_eq_ok_iff.1 h
  exact ⟨hp, rfl, rfl⟩

/-- What one line does: the declarations grow by what is accepted, and the program follows. -/
theorem execute_step {s : Session} (hs : s.Loaded) (g : Given) :
    (s.reply g).session.Loaded ∧ (s.reply g).session.config = s.config ∧
      (s.reply g).session.declarations
        = s.declarations ++ if Accepted g (s.reply g) then g.declared else [] := by
  have hkept : ¬ Accepted g (s.reply g) → (s.reply g).session = s →
      (s.reply g).session.Loaded ∧ (s.reply g).session.config = s.config ∧
        (s.reply g).session.declarations
          = s.declarations ++ if Accepted g (s.reply g) then g.declared else [] := by
    intro hnot hsame
    rw [if_neg hnot, hsame, List.append_nil]
    exact ⟨hs, rfl, rfl⟩
  by_cases hroute : g.route = .declaration
  · rcases execute_declared hroute with ⟨hfault, hsame⟩ | ⟨hnone, hstart⟩
    · refine hkept ?_ hsame
      rintro ⟨-, hnone⟩
      exact hfault (Option.isNone_iff_eq_none.1 hnone)
    · rw [if_pos ⟨hroute, Option.isNone_iff_eq_none.2 hnone⟩]
      exact Loaded.of_start hstart
  · exact hkept (fun h => hroute h.1) (execute_kept hroute)

/-- What some lines do, one after the other. -/
theorem after_declared {s : Session} (hs : s.Loaded) (given : List Given) :
    (s.after given).Loaded ∧ (s.after given).config = s.config ∧
      (s.after given).declarations = s.declarations ++ accepted given (s.replies given) := by
  induction given generalizing s with
  | nil => exact ⟨hs, rfl, (List.append_nil _).symm⟩
  | cons g rest ih =>
    obtain ⟨hloaded, hconfig, hdeclarations⟩ := execute_step hs g
    obtain ⟨hloaded', hconfig', hdeclarations'⟩ := ih hloaded
    refine ⟨hloaded', hconfig'.trans hconfig, ?_⟩
    rw [hdeclarations, List.append_assoc] at hdeclarations'
    exact hdeclarations'

/-! ## Expressions -/

/-- What a line is answered with if it comes to an evaluation. -/
def Reply.Tells (r : Reply) (colour : Bool) (evaluation : Evaluation) : Prop :=
  match evaluation.outcome with
  | .value v =>
    r.fault = none ∧ r.output
      = Colour.blue.paint colour v.printed ++ s!" ({evaluation.evaluator.steps} steps)\n"
  | .failure f => r.fault = some (.failed f) ∧ r.output = ""
  | .unfinished => r.fault = some .unfinished ∧ r.output = ""

/-- A line that is an expression is answered with what a fresh evaluator comes to. An interrupt
    that was raised before the line plays no part, only one that is raised while it is reduced. -/
structure Reply.Answers (r : Reply) (program : Program) (config : Config) (g : Given) : Prop where
  unreadable : ∀ e, parseExpression g.line.trim = .error e →
    r.fault = some (.unreadable e) ∧ r.output = ""
  evaluated : ∀ t, parseExpression g.line.trim = .ok t →
    r.Tells g.colour ((Evaluator.new program config ⟨false, g.signal.alarm⟩).reduce t)

theorem execute_answers {s : Session} {g : Given} (h : g.route = .expression) :
    (s.reply g).Answers s.program s.config g := by
  rw [reply_eq, h]
  constructor
  · intro e he
    simp only [evaluateLine, he]
    exact ⟨rfl, rfl⟩
  · intro t ht
    have hlowered : g.signal.lowered = ⟨false, g.signal.alarm⟩ := rfl
    simp only [evaluateLine, ht, hlowered, Reply.Tells]
    cases ((Evaluator.new s.program s.config ⟨false, g.signal.alarm⟩).reduce t).outcome with
    | value v => exact ⟨rfl, rfl⟩
    | failure f => exact ⟨rfl, rfl⟩
    | unfinished => exact ⟨rfl, rfl⟩

/-- **A session is the fold of its accepted declarations.** Let a session begin with declarations
    that load, and be given any lines. Then it has declared what it began with, followed by what was
    read off the lines that were accepted, and its program is what loading this gives. A further
    line that is refused, and one that is not a declaration, leaves it exactly as it is; and an
    expression is answered with what a fresh evaluator of the program that loading gives comes
    to. -/
theorem fold_of_accepted {config : Config} {ds : List Term} {s₀ : Session}
    (hstart : start config ds = .ok s₀) (given : List Given) :
    ((s₀.after given).config = config ∧
      (s₀.after given).declarations = ds ++ accepted given (s₀.replies given) ∧
      Program.load config.linear (s₀.after given).declarations = .ok (s₀.after given).program) ∧
    ∀ g : Given,
      (((s₀.after given).reply g).fault ≠ none ∨ g.route ≠ .declaration →
        ((s₀.after given).reply g).session = s₀.after given) ∧
      (g.route = .expression →
        ∃ p, Program.load config.linear (s₀.after given).declarations = .ok p ∧
          ((s₀.after given).reply g).Answers p config g) := by
  obtain ⟨hloaded₀, rfl, rfl⟩ := Loaded.of_start hstart
  obtain ⟨hloaded, hconfig, hdeclarations⟩ := after_declared hloaded₀ given
  rw [Loaded, hconfig] at hloaded
  refine ⟨⟨hconfig, hdeclarations, hloaded⟩, fun g => ⟨?_, fun hroute => ?_⟩⟩
  · rintro (hfault | hroute)
    · exact execute_refused hfault
    · exact execute_kept hroute
  · refine ⟨_, hloaded, ?_⟩
    have hanswers := execute_answers (s := s₀.after given) hroute
    rw [hconfig] at hanswers
    exact hanswers

/-- Some lines after which a type and a function are declared: they come in one line, given after an
    interrupt. Of the next line the clause alone would be accepted, but the type is declared
    already. Then there is a command that is none, and an expression. -/
def mixedLines : List Given := [
  ⟨Text.ofString "decltype t = k ; > f X = X", false, ⟨true, 0⟩⟩,
  ⟨Text.ofString "> g X = X ; decltype t = l", false, .quiet⟩,
  ⟨Text.ofString ":what", false, ⟨true, 0⟩⟩,
  ⟨Text.ofString "f k", false, ⟨true, 0⟩⟩]

/-- What the first of these lines declares. -/
def mixedDeclarations : List Term := [
  .entity [.ident "t", .app [.ident "k"]],
  .define (.app [.ident "f", .ident "X"]) (.ident "X")]

/-- The lines are given one after the other, and then the second and the last once more. -/
theorem fold_of_accepted_mixed :
    ∃ s₀ s : Session, start .standard [] = .ok s₀ ∧ s₀.after mixedLines = s ∧
      s.declarations = mixedDeclarations ∧ Program.load false mixedDeclarations = .ok s.program ∧
      (s.reply mixedLines[1]).fault.isSome = true ∧ (s.reply mixedLines[1]).session = s ∧
      (s.reply mixedLines[3]).output = "k (1 steps)\n" ∧ (s.reply mixedLines[3]).session = s := by
  let s₀ : Session := ⟨.standard, [], .empty⟩
  have hstart : start .standard [] = .ok s₀ := rfl
  have haccepted : accepted mixedLines (s₀.replies mixedLines) = mixedDeclarations := by
    decide +kernel
  obtain ⟨⟨hconfig, hdeclarations, hload⟩, hfurther⟩ := fold_of_accepted hstart mixedLines
  rw [haccepted, List.nil_append] at hdeclarations
  rw [hdeclarations] at hload
  -- The second line is still refused, whatever the lines behind it came to.
  have hrefused : ((s₀.after mixedLines).reply mixedLines[1]).fault.isSome = true := by
    have hroute : mixedLines[1].route = .declaration := by decide +kernel
    have hparse : parseProgram mixedLines[1].line.trim "" = .ok [
        .define (.app [.ident "g", .ident "X"]) (.ident "X"),
        .entity [.ident "t", .app [.ident "l"]]] := by
      decide +kernel
    rw [reply_eq, hroute]
    simp only [declareLine, hparse, declare, hdeclarations, hconfig]
    rfl
  have hroute : mixedLines[3].route = .expression := by decide +kernel
  have hparse : parseExpression mixedLines[3].line.trim = .ok (.app [.ident "f", .ident "k"]) := by
    decide +kernel
  obtain ⟨p, hp, hanswers⟩ := (hfurther mixedLines[3]).2 hroute
  have hp' : Program.load false mixedDeclarations = .ok p := by rw [← hdeclarations]; exact hp
  cases hp'
  have htells := hanswers.evaluated _ hparse
  rw [Evaluator.reduce, Evaluator.finish_of_iterate 7 rfl (by decide)] at htells
  exact ⟨s₀, _, hstart, rfl, hdeclarations, hload, hrefused,
    (hfurther mixedLines[1]).1 (.inl (Option.isSome_iff_ne_none.1 hrefused)), htells.2,
    (hfurther mixedLines[3]).1 (.inr (by rw [hroute]; decide))⟩

end Session

end Clausal
