/-
  Clausal.Proofs.Entry

  The signature of the entry is judged as it is written. A step of an evaluation never asks for a
  signature (`Program.step_signature`), so with another type declared for a name everything is
  evaluated as before. What may change is whether the program is run at all: the entry has to be
  declared with an arrow to the unit type, and neither the arrow nor its result may stand in
  parentheses (`Program.entryFault?_eq_none_iff`), which mean nothing anywhere else.
-/
import Clausal.Proofs.Reordering
import Clausal.Proofs.Spelling

namespace Clausal

/-! ## Types of an entry -/

namespace Term

/-- Whether a type is one that an entry has, parentheses apart. -/
def isEntryType (unit : String) (type : Term) : Bool :=
  match type.strip with
  | .arrow [_, result] => result = .ident unit
  | _ => false

/-- Whether a type shows how it is built: it is not in parentheses, and neither is the result of an
    arrow. -/
def isExposed : Term → Bool
  | .group _ => false
  | .arrow [_, .group _] => false
  | _ => true

/-- Only a name is a name once its parentheses are off, unless it had some. -/
theorem eq_ident_of_strip {t : Term} {n : String} (hgroup : t.isGroup = false)
    (h : t.strip = .ident n) : t = .ident n := by
  cases t with
  | ident m => exact h
  | group t => cases hgroup
  | _ => cases h

/-- Exposed types of an entry are the arrows to the unit type. -/
theorem isEntryType_isExposed_iff {unit : String} {type : Term} :
    (type.isEntryType unit = true ∧ type.isExposed = true) ↔
      ∃ arg, type = .arrow [arg, .ident unit] := by
  constructor
  · rintro ⟨hentry, hexposed⟩
    rw [isEntryType] at hentry
    split at hentry
    · rename_i arg result hstrip
      cases type with
      | seq kind elems =>
        rw [strip, stripAll_eq_map, seq.injEq] at hstrip
        obtain ⟨rfl, helems⟩ := hstrip
        obtain ⟨arg, rest, rfl, -, hrest⟩ := List.map_eq_cons_iff.1 helems
        obtain ⟨result', behind, rfl, hresult, hbehind⟩ := List.map_eq_cons_iff.1 hrest
        obtain rfl := List.map_eq_nil_iff.1 hbehind
        have hgroup : result'.isGroup = false := by
          cases result' with
          | group t => cases hexposed
          | _ => rfl
        have hunit : result'.strip = .ident unit := by rw [hresult, of_decide_eq_true hentry]
        exact ⟨arg, by rw [eq_ident_of_strip hgroup hunit]⟩
      | group t => cases hexposed
      | _ => cases hstrip
    · cases hentry
  · rintro ⟨arg, rfl⟩
    simp [isEntryType, isExposed, strip]

end Term

namespace Program

/-- A program is run exactly if its entry is declared with an exposed type of an entry. -/
theorem entryFault?_eq_none_iff {p : Program} {config : Config} {type : Term}
    (h : p.bindings.get? config.entryName = some type) :
    p.entryFault? config = none ↔
      type.isEntryType config.unitName = true ∧ type.isExposed = true := by
  rw [Term.isEntryType_isExposed_iff, entryFault?, h]
  constructor
  · intro hfault
    split at hfault
    · cases hfault
    · rename_i elems harrow
      cases harrow
      split at hfault
      · rename_i arg result
        rw [ite_eq_left_iff] at hfault
        have hresult : result = .ident config.unitName := by
          by_contra hne
          cases hfault hne
        exact ⟨arg, by rw [hresult]⟩
      · cases hfault
    · cases hfault
  · rintro ⟨arg, rfl⟩
    simp

/-! ## Declaring another type -/

/-- The declaration of a signature, with the keyword for built-in functions or without it. -/
def signature (keyword : Bool) (name : String) (type : Term) : Term :=
  if keyword then .builtin (.ident name) type else .isa (.ident name) type

theorem item?_signature (linear keyword : Bool) (name : String) (type : Term) :
    item? linear (signature keyword name type) = some (.binding name type) := by
  cases keyword <;> rfl

variable {linear keyword : Bool} {before after : List Term} {name : String} {type : Term}

/-- Declarations with a signature among them. -/
theorem load_signature_iff {p : Program} :
    load linear (before ++ signature keyword name type :: after) = .ok p ↔
      (∀ d ∈ before ++ after, (item? linear d).isSome = true) ∧
        Distinct (before.filterMap (item? linear) ++ .binding name type
          :: after.filterMap (item? linear)) ∧
        p = ofItems (before.filterMap (item? linear) ++ .binding name type
          :: after.filterMap (item? linear)) := by
  have hitem := item?_signature linear keyword name type
  rw [load_eq_ok_iff, List.filterMap_append, List.filterMap_cons_some hitem]
  simp [or_imp, forall_and, hitem]

variable {items items' : List Item} {type' : Term}

/-- The signature of a name that is declared once is the one that is declared for it. -/
theorem bindings_signature (h : Distinct (items ++ .binding name type :: items')) :
    (ofItems (items ++ .binding name type :: items')).bindings.get? name = some type := by
  have hnames := h.bindings
  rw [bindings_ofItems, List.lookup_eq_some_iff]
  refine ⟨(items'.filterMap Item.binding?).reverse, (items.filterMap Item.binding?).reverse, ?_, ?_⟩
  · simp [Item.binding?]
  · intro other hother
    rw [List.mem_reverse] at hother
    rw [List.filterMap_append, List.map_append] at hnames
    have hlater := (List.nodup_cons.1 hnames.of_append_right).1
    rw [bne_iff_ne]
    intro hname
    exact hlater (List.mem_map.2 ⟨other, hother, hname.symm⟩)

/-- The type of a signature is no name, so any other will do. -/
theorem Distinct.signature (h : Distinct (items ++ .binding name type :: items')) (type' : Term) :
    Distinct (items ++ .binding name type' :: items') where
  types := by
    have hnames := h.types
    rw [List.filterMap_append] at hnames ⊢
    exact hnames
  bindings := by
    have hnames := h.bindings
    rw [List.filterMap_append, List.map_append] at hnames ⊢
    exact hnames

theorem clauses_signature (other : String) :
    (ofItems (items ++ .binding name type' :: items')).clauses.get? other
      = (ofItems (items ++ .binding name type :: items')).clauses.get? other := by
  have hclauses : clausesFor (items ++ .binding name type' :: items') other
      = clausesFor (items ++ .binding name type :: items') other := by
    rw [clausesFor, clausesFor, List.filterMap_append, List.filterMap_append]
    rfl
  rw [clauses_ofItems, clauses_ofItems, hclauses]

theorem isValueHead_signature (other : String) :
    (ofItems (items ++ .binding name type' :: items')).isValueHead other
      = (ofItems (items ++ .binding name type :: items')).isValueHead other := by
  have hconstructors :
      ((ofItems (items ++ .binding name type' :: items')).typeOfConstructor? other).isSome
        = ((ofItems (items ++ .binding name type :: items')).typeOfConstructor? other).isSome := by
    rw [Bool.eq_iff_iff, isSome_typeOfConstructor?, isSome_typeOfConstructor?]
    simp [Item.constructors]
  rw [isValueHead, isValueHead, hconstructors, Environment.contains, Environment.contains,
    clauses_signature]

/-- No step asks for a signature. -/
theorem step_signature (config : Config) (m : Machine) :
    m.step (ofItems (items ++ .binding name type' :: items')) config
      = m.step (ofItems (items ++ .binding name type :: items')) config :=
  m.step_congr clauses_signature isValueHead_signature

end Program

/-! ## Running with another type -/

/-- Whether a program was not run at all. -/
def Verdict.isRefused : Verdict → Bool
  | .refused _ => true
  | _ => false

/-- Two runs come to the same: both were refused, whatever the reason given, or neither was and they
    ended alike after as many calls. -/
def Interpretation.SameRun (run run' : Interpretation) : Prop :=
  run'.verdict.isRefused = run.verdict.isRefused ∧
    (run.verdict.isRefused = false → run'.verdict = run.verdict ∧ run'.steps = run.steps)

namespace Evaluator

/-- A program is refused before it is run or not at all. -/
theorem isRefused_interpret (e : Evaluator) :
    e.interpret.verdict.isRefused = (e.program.entryFault? e.config).isSome := by
  rw [interpret]
  cases e.program.entryFault? e.config with
  | some fault => rfl
  | none =>
    have hrun : ∀ evaluation : Evaluation,
        evaluation.interpretation.verdict.isRefused = false := by
      intro evaluation
      rw [Evaluation.interpretation]
      cases evaluation.outcome <;> rfl
    rcases interpretFrom_cases e (.app [.ident e.config.entryName, e.config.seedTerm])
      with h | ⟨v, -, h⟩
    · exact (congrArg (·.verdict.isRefused) (h _)).trans (hrun _)
    · exact (congrArg (·.verdict.isRefused) (h _)).trans (hrun _)

/-- A program that is run ends with its first reduction if that gives a name. -/
theorem interpret_of_ident {e : Evaluator} (hentry : e.program.entryFault? e.config = none)
    {n : String} (hreduce : (e.reduce (.app [.ident e.config.entryName, e.config.seedTerm])).outcome
      = .value (.ident n)) : e.interpret.verdict = .value (.ident n) := by
  have hlast : ∀ v, (e.reduce (.app [.ident e.config.entryName, e.config.seedTerm])).outcome
      = .value v → v.isIdent = true ∨ v = .app [.ident e.config.entryName, e.config.seedTerm] := by
    rintro v hv
    rw [hreduce] at hv
    cases hv
    exact .inl rfl
  rw [interpret, hentry]
  simp only
  rw [interpretFrom_last hlast]
  exact Evaluation.interpretation_value.2 hreduce

/-- Programs under which each step is the same come to the same unless one of them is run and the
    other is not. -/
theorem sameRun_iff {p p' : Program} {config : Config}
    (h : ∀ m : Machine, m.step p' config = m.step p config) (signal : Signal) :
    (new p config signal).interpret.SameRun (new p' config signal).interpret ↔
      (p'.entryFault? config = none ↔ p.entryFault? config = none) := by
  have hrefused := isRefused_interpret (new p config signal)
  have hrefused' := isRefused_interpret (new p' config signal)
  have hiff : (p'.entryFault? config = none ↔ p.entryFault? config = none) ↔
      (p'.entryFault? config).isSome = (p.entryFault? config).isSome := by
    cases p'.entryFault? config <;> cases p.entryFault? config <;> simp
  rw [hiff, Interpretation.SameRun, hrefused, hrefused']
  refine ⟨fun hsame => hsame.1, fun hsame => ⟨hsame, fun hrun => ?_⟩⟩
  -- Both are run, from the same term.
  have hentry : p.entryFault? config = none :=
    Option.isNone_iff_eq_none.1 (Option.isSome_eq_false_iff.1 hrun)
  have hentry' : p'.entryFault? config = none := (hiff.2 hsame).2 hentry
  have hcongr := interpretFrom_congr (e := new p config signal) h (config.patience + 2)
    (.app [.ident config.entryName, config.seedTerm])
  have hinterpret : (new p' config signal).interpret
      = (new p config signal).interpret.under p' := by
    simp only [interpret, new, hentry, hentry']
    exact hcongr
  rw [hinterpret]
  exact ⟨rfl, rfl⟩

end Evaluator

/-- **The entry is judged as it is written.** Let the type that is declared for the entry be replaced
    by another that is the same without its parentheses. Then the declarations are loaded as before,
    and the two programs come to the same, refused both or run alike, for every setting, unless the
    type is that of an entry and its arrow or the result of it stands in parentheses in the one
    declaration and not in the other. -/
theorem entry_judged_as_written {before after : List Term} {keyword : Bool} {type type' : Term}
    {config : Config} {p : Program} (hsame : type'.strip = type.strip)
    (hload : Program.load config.linear
      (before ++ Program.signature keyword config.entryName type :: after) = .ok p) :
    ∃ p', Program.load config.linear
        (before ++ Program.signature keyword config.entryName type' :: after) = .ok p' ∧
      ∀ signal : Signal,
        (Evaluator.new p config signal).interpret.SameRun
            (Evaluator.new p' config signal).interpret ↔
          (type.isEntryType config.unitName = true → type'.isExposed = type.isExposed) := by
  obtain ⟨hforms, hdistinct, rfl⟩ := Program.load_signature_iff.1 hload
  have hdistinct' := hdistinct.signature type'
  refine ⟨_, Program.load_signature_iff.2 ⟨hforms, hdistinct', rfl⟩, fun signal => ?_⟩
  have htype : type'.isEntryType config.unitName = type.isEntryType config.unitName := by
    rw [Term.isEntryType, Term.isEntryType, hsame]
  rw [Evaluator.sameRun_iff (Program.step_signature config),
    Program.entryFault?_eq_none_iff (Program.bindings_signature hdistinct),
    Program.entryFault?_eq_none_iff (Program.bindings_signature hdistinct'), htype,
    and_congr_right_iff, ← Bool.eq_iff_iff]

/-- A program whose entry has a type to be filled in, and one clause that reads its argument. -/
def entryDeclarations (type : Term) : List Term :=
  [.isa (.ident "main") type, .define (.app [.ident "main", .ident "X"]) (.ident "done")]

/-- What these declarations are loaded as. -/
def entryProgram (type : Term) : Program where
  types := .empty
  clauses := ⟨[("main", [⟨"main", [.var "X"], .ident "done", [.ident "main", .ident "X"]⟩])]⟩
  bindings := ⟨[("main", type)]⟩
  constructors := []

/-- Parentheses around the type of the argument do no harm. -/
theorem entry_judged_as_written_argument :
    ∃ p, Program.load Config.standard.linear
        (entryDeclarations (.arrow [.group (.ident "a"), .ident "'unit"])) = .ok p ∧
      (Evaluator.new (entryProgram (.arrow [.ident "a", .ident "'unit"])) .standard
        .quiet).interpret.SameRun (Evaluator.new p .standard .quiet).interpret := by
  have hload : Program.load Config.standard.linear ([] ++ Program.signature false
      Config.standard.entryName (.arrow [.ident "a", .ident "'unit"])
        :: [.define (.app [.ident "main", .ident "X"]) (.ident "done")])
      = .ok (entryProgram (.arrow [.ident "a", .ident "'unit"])) := by
    rfl
  have hsame : (Term.arrow [.group (.ident "a"), .ident "'unit"]).strip
      = (Term.arrow [.ident "a", .ident "'unit"]).strip := rfl
  obtain ⟨p, hp, hrun⟩ := entry_judged_as_written hsame hload
  exact ⟨p, hp, (hrun .quiet).2 fun _ => rfl⟩

/-- With parentheses around the whole type the program is refused, without them it is run. -/
theorem grouped_entry_refused :
    parseProgram (Text.ofString "main : a -> 'unit ; > main X = done") ""
        = .ok (entryDeclarations (.arrow [.ident "a", .ident "'unit"])) ∧
      parseProgram (Text.ofString "main : (a -> 'unit) ; > main X = done") ""
        = .ok (entryDeclarations (.group (.arrow [.ident "a", .ident "'unit"]))) ∧
      (∀ type, Program.load Config.standard.linear (entryDeclarations type)
        = .ok (entryProgram type)) ∧
      (Evaluator.new (entryProgram (.arrow [.ident "a", .ident "'unit"])) .standard
        .quiet).interpret.verdict = .value (.ident "done") ∧
      (Evaluator.new (entryProgram (.group (.arrow [.ident "a", .ident "'unit"]))) .standard
        .quiet).interpret.verdict.isRefused = true := by
  refine ⟨by decide +kernel, by decide +kernel, fun _ => rfl, ?_, rfl⟩
  refine Evaluator.interpret_of_ident rfl ?_
  rw [Evaluator.reduce, Evaluator.finish_of_iterate 6 rfl (by decide)]
  rfl

end Clausal
