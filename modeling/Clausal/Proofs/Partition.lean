/-
  Clausal.Proofs.Partition

  A program is the partition of its declarations. Whether a declaration fits depends on it and on
  those before it (`Program.Fits`), and so does the error with which it is refused if it does not
  (`Program.Refused`); loading ends at the first that does not fit. Of declarations that all fit,
  each goes to the table of its kind, and what is asked of the program is read off the list
  (`Program.Sorted`): names in the order of declaration, the clauses of a function among those of all
  others, the signature of a name, the type that a constructor builds.

    * `Program.fits_or_refused`, `Program.Fits.add`, `Program.Refused.add`: what one declaration does;
    * `Program.load_ok_iff_fits`, `Program.load_error_iff_refused`: what a list of them does;
    * `Program.load_partitions`: both, and what the program then answers.
-/
import Clausal.Config
import Clausal.Proofs.Loading
import Clausal.Proofs.Repeats

namespace Clausal

/-! ## Declarations by kind -/

namespace Term

/-- The name of the type that a declaration declares. -/
def typeName? : Term → Option String
  | .entity (head :: _) => some head.render
  | _ => none

/-- The name and the type of a signature, builtin or not. -/
def signature? : Term → Option (String × Term)
  | .isa (.ident name) type => some (name, type)
  | .builtin (.ident name) type => some (name, type)
  | _ => none

/-- The clause that a declaration declares, with a parameter for each argument of its head. -/
def clause? : Term → Option Clause
  | .define (.app (head :: args)) body =>
    some ⟨head.render, args.map Pattern.ofTerm, body, head :: args⟩
  | _ => none

/-- The constructors that a declaration declares, each with the name of its type. -/
def built : Term → List (String × String)
  | .entity (head :: rest) =>
    ((constructors (head :: rest)).filterMap Program.constructorName?).map fun c => (c, head.render)
  | _ => []

/-- Why a declaration of a certain form does not fit: its name is taken, it repeats a variable, or it
    has the form of no declaration. -/
def misfit : Term → Cause
  | .entity (_ :: _) => .duplicateType
  | .define (.app (_ :: _)) _ => .repeatedVariable
  | .isa (.ident _) _ => .duplicateBinding
  | .builtin (.ident _) _ => .duplicateBinding
  | _ => .malformedDeclaration

end Term

namespace Program

/-- The names of the variables among the parameters of a clause. -/
def variableNames (args : List Term) : List String :=
  (args.map Pattern.ofTerm).filterMap Pattern.boundName?

/-- A declaration fits behind those before it. -/
inductive Fits (linear : Bool) (before : List Term) : Term → Prop where
  | type {head : Term} {rest : List Term} :
      head.render ∉ before.filterMap Term.typeName? → Fits linear before (.entity (head :: rest))
  | clause {head body : Term} {args : List Term} :
      (linear = true → (variableNames args).Nodup) →
      Fits linear before (.define (.app (head :: args)) body)
  | signature {name : String} {type : Term} :
      name ∉ (before.filterMap Term.signature?).map Prod.fst →
      Fits linear before (.isa (.ident name) type)
  | builtin {name : String} {type : Term} :
      name ∉ (before.filterMap Term.signature?).map Prod.fst →
      Fits linear before (.builtin (.ident name) type)

/-- A declaration behind some others is refused with an error. -/
inductive Refused (linear : Bool) (before : List Term) : Term → LoadError → Prop where
  | unnamed : Refused linear before (.entity []) .unnamedType
  | type {head : Term} {rest : List Term} : head.render ∈ before.filterMap Term.typeName? →
      Refused linear before (.entity (head :: rest)) (.duplicateType head.render)
  | head {left body : Term} : (∀ head args, left ≠ .app (head :: args)) →
      Refused linear before (.define left body) (.clauseHead left body)
  | repeated {head body : Term} {args : List Term} {name : String} {seen more : List String} :
      linear = true → variableNames args = seen ++ name :: more → seen.Nodup → name ∈ seen →
      Refused linear before (.define (.app (head :: args)) body)
        (.repeatedVariable head.render name)
  | signatureName {left type : Term} : left.isIdent = false →
      Refused linear before (.isa left type) (.signatureName left type)
  | builtinName {left type : Term} : left.isIdent = false →
      Refused linear before (.builtin left type) (.signatureName left type)
  | signature {name : String} {type : Term} :
      name ∈ (before.filterMap Term.signature?).map Prod.fst →
      Refused linear before (.isa (.ident name) type) (.duplicateBinding name)
  | builtin {name : String} {type : Term} :
      name ∈ (before.filterMap Term.signature?).map Prod.fst →
      Refused linear before (.builtin (.ident name) type) (.duplicateBinding name)
  | other {t : Term} : (∀ elems, t ≠ .entity elems) → (∀ left body, t ≠ .define left body) →
      (∀ left type, t ≠ .isa left type) → (∀ left type, t ≠ .builtin left type) →
      Refused linear before t (.notDeclaration t)

end Program

/-! ## Repeated variables -/

theorem Clause.firstRepeat?_eq_none_iff {seen names : List String} :
    firstRepeat? seen names = none ↔ names.Nodup ∧ ∀ n ∈ names, n ∉ seen := by
  induction names generalizing seen with
  | nil => simp [firstRepeat?]
  | cons name names ih =>
    rw [firstRepeat?, List.nodup_cons, List.forall_mem_cons]
    by_cases hseen : name ∈ seen
    · simp [hseen]
    · rw [if_neg (by simpa using hseen), ih]
      simp only [List.mem_cons, not_or]
      constructor
      · rintro ⟨hnodup, hfresh⟩
        exact ⟨⟨fun hmem => (hfresh name hmem).1 rfl, hnodup⟩, hseen, fun n hn => (hfresh n hn).2⟩
      · rintro ⟨⟨hname, hnodup⟩, -, hfresh⟩
        exact ⟨hnodup, fun n hn => ⟨fun heq => hname (heq ▸ hn), hfresh n hn⟩⟩

/-- The name that is found is the first to have come before. -/
theorem Clause.firstRepeat?_eq_some_iff {seen names : List String} {name : String} :
    firstRepeat? seen names = some name ↔ ∃ pre more, names = pre ++ name :: more ∧
      firstRepeat? seen pre = none ∧ (name ∈ seen ∨ name ∈ pre) := by
  induction names generalizing seen with
  | nil => simp [firstRepeat?]
  | cons first names ih =>
    rw [firstRepeat?]
    by_cases hseen : first ∈ seen
    · rw [if_pos (by simpa using hseen), Option.some_inj]
      constructor
      · rintro rfl
        exact ⟨[], names, rfl, rfl, .inl hseen⟩
      · rintro ⟨pre, more, hnames, hnone, -⟩
        cases pre with
        | nil => exact (List.cons.inj hnames).1
        | cons other pre =>
          obtain ⟨rfl, -⟩ := List.cons.inj hnames
          exact absurd hseen ((firstRepeat?_eq_none_iff.1 hnone).2 first List.mem_cons_self)
    · rw [if_neg (by simpa using hseen), ih]
      constructor
      · rintro ⟨pre, more, rfl, hnone, hmem⟩
        refine ⟨first :: pre, more, rfl, ?_, ?_⟩
        · rw [firstRepeat?, if_neg (by simpa using hseen)]
          exact hnone
        · rw [List.mem_cons] at hmem ⊢
          tauto
      · rintro ⟨pre, more, hnames, hnone, hmem⟩
        cases pre with
        | nil =>
          obtain ⟨rfl, -⟩ := List.cons.inj hnames
          simp [hseen] at hmem
        | cons other pre =>
          obtain ⟨rfl, hrest⟩ := List.cons.inj hnames
          rw [firstRepeat?, if_neg (by simpa using hseen)] at hnone
          refine ⟨pre, more, hrest, hnone, ?_⟩
          rw [List.mem_cons] at hmem ⊢
          tauto

/-! ## Tables -/

/-- Under names that differ each value is found. -/
theorem Environment.get?_eq_some_iff_mem {α : Type} {e : Environment α} (hnodup : e.names.Nodup)
    {name : String} {value : α} : e.get? name = some value ↔ (name, value) ∈ e.entries := by
  refine ⟨mem_entries_of_get?, fun hmem => ?_⟩
  obtain ⟨before, behind, hentries⟩ := List.append_of_mem hmem
  refine List.lookup_eq_some_iff.2 ⟨before, behind, hentries, fun entry hentry => ?_⟩
  rw [names, hentries, List.map_append, List.map_cons] at hnodup
  have hne := (List.nodup_append.1 hnodup).2.2 entry.1 (List.mem_map_of_mem hentry) name
    List.mem_cons_self
  simpa using Ne.symm hne

namespace Program

variable {linear : Bool} {ds before : List Term} {p : Program} {d : Term}

/-! ## Items by kind -/

/-- A type with its name. -/
def Item.type? : Item → Option (String × Term)
  | .type name elems => some (name, .entity elems)
  | _ => none

/-- The constructors of a type, each with the type's name. -/
def Item.built : Item → List (String × String)
  | .type name elems =>
    ((Term.constructors elems).filterMap constructorName?).map fun c => (c, name)
  | _ => []

theorem entries_types_ofItems {items : List Item} (h : Distinct items) :
    (ofItems items).types.entries = items.filterMap Item.type? := by
  induction items using List.reverseRecOn with
  | nil => rfl
  | append_singleton items item ih =>
    obtain ⟨hitems, hfree⟩ := distinct_concat.1 h
    rw [ofItems_concat, List.filterMap_append, ← ih hitems]
    cases item with
    | type name elems => exact Environment.entries_put_of_not_contains hfree _
    | clause c => exact (List.append_nil _).symm
    | binding name type => exact (List.append_nil _).symm

theorem entries_bindings_ofItems {items : List Item} (h : Distinct items) :
    (ofItems items).bindings.entries = items.filterMap Item.binding? := by
  induction items using List.reverseRecOn with
  | nil => rfl
  | append_singleton items item ih =>
    obtain ⟨hitems, hfree⟩ := distinct_concat.1 h
    rw [ofItems_concat, List.filterMap_append, ← ih hitems]
    cases item with
    | binding name type => exact Environment.entries_put_of_not_contains hfree _
    | clause c => exact (List.append_nil _).symm
    | type name elems => exact (List.append_nil _).symm

/-- A function is listed where its first clause was declared. -/
theorem names_clauses_ofItems (items : List Item) :
    (ofItems items).clauses.names = ((items.filterMap Item.clause?).map Clause.name).eraseDups := by
  induction items using List.reverseRecOn with
  | nil => rfl
  | append_singleton items item ih =>
    rw [ofItems_concat, List.filterMap_append, List.map_append]
    cases item with
    | clause c =>
      have hlast : ([Item.clause c].filterMap Item.clause?).map Clause.name = [c.name] := rfl
      have hold : (ofItems items).clauses.contains c.name = true ↔
          c.name ∈ (items.filterMap Item.clause?).map Clause.name := by
        rw [← Environment.mem_names_iff, ih, List.mem_eraseDups]
      rw [insert, addClause, Environment.names_put, hlast, eraseDups_concat, ← ih]
      simp only [hold]
    | type name elems =>
      rw [show [Item.type name elems].filterMap Item.clause? = [] from rfl, List.map_nil,
        List.append_nil]
      exact ih
    | binding name type =>
      rw [show [Item.binding name type].filterMap Item.clause? = [] from rfl, List.map_nil,
        List.append_nil]
      exact ih

theorem constructors_ofItems (items : List Item) :
    (ofItems items).constructors = (items.flatMap Item.built).reverse := by
  induction items using List.reverseRecOn with
  | nil => rfl
  | append_singleton items item ih =>
    rw [ofItems_concat, List.flatMap_append, List.reverse_append, ← ih]
    cases item with
    | type name elems => simp [insert, Item.built]
    | clause c => simp [insert, addClause, Item.built]
    | binding name type => simp [insert, Item.built]

/-! ## Items of declarations -/

theorem item?_bind_typeName? (d : Term) : (item? linear d).bind Item.typeName? = d.typeName? := by
  unfold item? Term.typeName?
  split <;> simp_all [Item.typeName?]

theorem item?_bind_binding? (d : Term) : (item? linear d).bind Item.binding? = d.signature? := by
  unfold item? Term.signature?
  split <;> simp_all [Item.binding?]

theorem item?_bind_type? (d : Term) :
    (item? linear d).bind Item.type? = d.typeName?.map fun name => (name, d) := by
  unfold item? Term.typeName?
  split <;> simp_all [Item.type?]

theorem flatMap_item?_built (d : Term) : (item? linear d).toList.flatMap Item.built = d.built := by
  unfold item? Term.built
  split <;> simp_all [Item.built]

/-- A clause that is added is the one that was declared. -/
theorem clause?_of_item? {item : Item} (h : item? linear d = some item) :
    item.clause? = d.clause? := by
  have hitem := h
  unfold item? at h
  split at h
  · cases h
    rfl
  · obtain ⟨c, -, rfl⟩ := Option.map_eq_some_iff.1 h
    obtain ⟨left, right, heq, hcompile⟩ := item?_eq_clause hitem
    obtain ⟨head, args, rfl, rfl⟩ := Clause.compile_ok hcompile
    rw [heq]
    rfl
  · cases h
    rfl
  · cases h
    rfl
  · cases h

theorem filterMap_typeName? (ds : List Term) :
    (ds.filterMap (item? linear)).filterMap Item.typeName? = ds.filterMap Term.typeName? := by
  rw [List.filterMap_filterMap, funext item?_bind_typeName?]

theorem filterMap_binding? (ds : List Term) :
    (ds.filterMap (item? linear)).filterMap Item.binding? = ds.filterMap Term.signature? := by
  rw [List.filterMap_filterMap, funext item?_bind_binding?]

theorem filterMap_type? (ds : List Term) :
    (ds.filterMap (item? linear)).filterMap Item.type?
      = ds.filterMap fun d => d.typeName?.map fun name => (name, d) := by
  rw [List.filterMap_filterMap, funext item?_bind_type?]

theorem flatMap_built (ds : List Term) :
    (ds.filterMap (item? linear)).flatMap Item.built = ds.flatMap Term.built := by
  induction ds with
  | nil => rfl
  | cons d ds ih =>
    rw [List.flatMap_cons, ← ih, ← @flatMap_item?_built linear, List.filterMap_cons]
    cases item? linear d <;> simp

theorem filterMap_clause? (h : ∀ d ∈ ds, (item? linear d).isSome = true) :
    (ds.filterMap (item? linear)).filterMap Item.clause? = ds.filterMap Term.clause? := by
  rw [List.filterMap_filterMap]
  refine List.filterMap_congr fun d hd => ?_
  obtain ⟨item, hitem⟩ := Option.isSome_iff_exists.1 (h d hd)
  rw [hitem]
  exact clause?_of_item? hitem

/-! ## One declaration -/

theorem compile_eq_ok {head body : Term} {args : List Term}
    (h : linear = true → (variableNames args).Nodup) :
    Clause.compile linear (.app (head :: args)) body
      = .ok ⟨head.render, args.map Pattern.ofTerm, body, head :: args⟩ := by
  have hnone : (if linear then Clause.firstRepeat? [] (variableNames args) else none) = none := by
    split
    · rename_i hlinear
      exact Clause.firstRepeat?_eq_none_iff.2 ⟨h hlinear, by simp⟩
    · rfl
  rw [variableNames] at hnone
  rw [Clause.compile]
  simp only [hnone]

theorem compile_eq_error {head body : Term} {args : List Term} {name : String}
    {seen more : List String} (hnames : variableNames args = seen ++ name :: more)
    (hseen : seen.Nodup) (hname : name ∈ seen) :
    Clause.compile true (.app (head :: args)) body
      = .error (.repeatedVariable head.render name) := by
  have hsome : Clause.firstRepeat? [] (variableNames args) = some name :=
    Clause.firstRepeat?_eq_some_iff.2 ⟨seen, more, hnames,
      Clause.firstRepeat?_eq_none_iff.2 ⟨hseen, by simp⟩, .inr hname⟩
  rw [variableNames] at hsome
  rw [Clause.compile]
  simp only [if_true, hsome]

/-- The program of some declarations, as far as they have the form of one. -/
def ofDeclarations (linear : Bool) (ds : List Term) : Program :=
  ofItems (ds.filterMap (item? linear))

theorem contains_types_ofDeclarations {name : String} :
    (ofDeclarations linear before).types.contains name = true ↔
      name ∈ before.filterMap Term.typeName? := by
  rw [ofDeclarations, contains_types_ofItems, filterMap_typeName?]

theorem contains_bindings_ofDeclarations {name : String} :
    (ofDeclarations linear before).bindings.contains name = true ↔
      name ∈ (before.filterMap Term.signature?).map Prod.fst := by
  rw [ofDeclarations, contains_bindings_ofItems, filterMap_binding?]

/-- A declaration that fits is added. -/
theorem Fits.add (h : Fits linear before d) :
    (ofDeclarations linear before).add linear d = .ok (ofDeclarations linear (before ++ [d])) := by
  obtain ⟨item, hitem, hfree⟩ : ∃ item, item? linear d = some item ∧
      (ofDeclarations linear before).Free item := by
    cases h with
    | type hname =>
      exact ⟨_, rfl, Bool.eq_false_iff.2 (mt contains_types_ofDeclarations.1 hname)⟩
    | @clause head body args hvariables =>
      refine ⟨.clause ⟨head.render, args.map Pattern.ofTerm, body, head :: args⟩, ?_, trivial⟩
      rw [item?, compile_eq_ok hvariables]
      rfl
    | signature hname =>
      exact ⟨_, rfl, Bool.eq_false_iff.2 (mt contains_bindings_ofDeclarations.1 hname)⟩
    | builtin hname =>
      exact ⟨_, rfl, Bool.eq_false_iff.2 (mt contains_bindings_ofDeclarations.1 hname)⟩
  refine add_eq_ok_iff.2 ⟨item, hitem, hfree, ?_⟩
  have hlast : [d].filterMap (item? linear) = [item] := by simp [hitem]
  rw [ofDeclarations, List.filterMap_append, hlast]
  exact ofItems_concat _ _

theorem addBinding_refused {left type : Term} (h : left.isIdent = false) :
    p.addBinding left type = .error (.signatureName left type) := by
  cases left with
  | ident name => cases h
  | _ => rfl

theorem addBinding_duplicate {name : String} {type : Term}
    (h : p.bindings.contains name = true) :
    p.addBinding (.ident name) type = .error (.duplicateBinding name) := by
  rw [addBinding, Environment.define, h]
  rfl

/-- A declaration that is refused is not added, for the reason given. -/
theorem Refused.add {err : LoadError} (h : Refused linear before d err) :
    (ofDeclarations linear before).add linear d = .error err := by
  cases h with
  | unnamed => rfl
  | type hname =>
    rw [Program.add, addType, Environment.define, contains_types_ofDeclarations.2 hname]
    rfl
  | head hleft =>
    rw [Program.add, Clause.compile.eq_def]
    split
    · exact absurd rfl (hleft _ _)
    · rfl
  | repeated hlinear hnames hseen hname =>
    rw [Program.add, hlinear, compile_eq_error hnames hseen hname]
    rfl
  | signatureName hleft => exact addBinding_refused hleft
  | builtinName hleft => exact addBinding_refused hleft
  | signature hname => exact addBinding_duplicate (contains_bindings_ofDeclarations.2 hname)
  | builtin hname => exact addBinding_duplicate (contains_bindings_ofDeclarations.2 hname)
  | other hentity hdefine hisa hbuiltin =>
    unfold Program.add
    split
    · exact absurd rfl (hentity _)
    · exact absurd rfl (hdefine _ _)
    · exact absurd rfl (hisa _ _)
    · exact absurd rfl (hbuiltin _ _)
    · rfl

/-- A declaration either fits or is refused. -/
theorem fits_or_refused (linear : Bool) (before : List Term) (d : Term) :
    Fits linear before d ∨ ∃ err, Refused linear before d err := by
  cases d with
  | seq kind elems =>
    cases kind with
    | entity =>
      cases elems with
      | nil => exact .inr ⟨_, .unnamed⟩
      | cons head rest =>
        by_cases hname : head.render ∈ before.filterMap Term.typeName?
        · exact .inr ⟨_, .type hname⟩
        · exact .inl (.type hname)
    | _ => exact .inr ⟨_, .other (by simp) (by simp) (by simp) (by simp)⟩
  | rel kind left right =>
    cases kind with
    | clause =>
      by_cases hleft : ∃ head args, left = .app (head :: args)
      · obtain ⟨head, args, rfl⟩ := hleft
        cases hrepeat : Clause.firstRepeat? [] (variableNames args) with
        | none => exact .inl (.clause fun _ => (Clause.firstRepeat?_eq_none_iff.1 hrepeat).1)
        | some name =>
          obtain ⟨seen, more, hnames, hseen, hname⟩ := Clause.firstRepeat?_eq_some_iff.1 hrepeat
          have hnodup := (Clause.firstRepeat?_eq_none_iff.1 hseen).1
          have hmem : name ∈ seen := by simpa using hname
          cases linear with
          | false => exact .inl (.clause (by simp))
          | true => exact .inr ⟨_, .repeated rfl hnames hnodup hmem⟩
      · exact .inr ⟨_, .head fun head args heq => hleft ⟨head, args, heq⟩⟩
    | typing =>
      cases left with
      | ident name =>
        by_cases hname : name ∈ (before.filterMap Term.signature?).map Prod.fst
        · exact .inr ⟨_, .signature hname⟩
        · exact .inl (.signature hname)
      | _ => exact .inr ⟨_, .signatureName rfl⟩
    | equation => exact .inr ⟨_, .other (by simp) (by simp) (by simp) (by simp)⟩
  | builtin left right =>
    cases left with
    | ident name =>
      by_cases hname : name ∈ (before.filterMap Term.signature?).map Prod.fst
      · exact .inr ⟨_, .builtin hname⟩
      · exact .inl (.builtin hname)
    | _ => exact .inr ⟨_, .builtinName rfl⟩
  | _ => exact .inr ⟨_, .other (by simp) (by simp) (by simp) (by simp)⟩

theorem add_ofDeclarations_ok_iff :
    (ofDeclarations linear before).add linear d = .ok p ↔
      Fits linear before d ∧ p = ofDeclarations linear (before ++ [d]) := by
  rcases fits_or_refused linear before d with hfits | ⟨err, hrefused⟩
  · rw [hfits.add, Except.ok.injEq, eq_comm]
    exact (and_iff_right hfits).symm
  · have hnot : ¬ Fits linear before d := by
      intro hfits
      cases hfits.add.symm.trans hrefused.add
    rw [hrefused.add]
    simp [hnot]

theorem add_ofDeclarations_error_iff {err : LoadError} :
    (ofDeclarations linear before).add linear d = .error err ↔ Refused linear before d err := by
  refine ⟨fun h => ?_, Refused.add⟩
  rcases fits_or_refused linear before d with hfits | ⟨other, hrefused⟩
  · cases hfits.add.symm.trans h
  · cases hrefused.add.symm.trans h
    exact hrefused

theorem Refused.not_fits {err : LoadError} (h : Refused linear before d err) :
    ¬ Fits linear before d := by
  intro hfits
  cases hfits.add.symm.trans h.add

theorem Refused.cause_eq {err : LoadError} (h : Refused linear before d err) :
    err.cause = d.misfit := by
  cases h with
  | head hleft =>
    unfold Term.misfit
    split
    · rename_i heq
      cases heq
    · rename_i heq
      cases heq
      exact absurd rfl (hleft _ _)
    · rename_i heq
      cases heq
    · rename_i heq
      cases heq
    · rfl
  | @signatureName left type hleft =>
    cases left with
    | ident name => cases hleft
    | _ => rfl
  | @builtinName left type hleft =>
    cases left with
    | ident name => cases hleft
    | _ => rfl
  | other hentity hdefine hisa hbuiltin =>
    unfold Term.misfit
    split
    · exact absurd rfl (hentity _)
    · exact absurd rfl (hdefine _ _)
    · exact absurd rfl (hisa _ _)
    · exact absurd rfl (hbuiltin _ _)
    · rfl
  | _ => rfl

/-! ## Lists of declarations -/

/-- Each of some declarations fits behind those before it. -/
def AllFit (linear : Bool) (ds : List Term) : Prop :=
  ∀ before d after, ds = before ++ d :: after → Fits linear before d

/-- One of some declarations and a last one is the last, or it is one of those before. -/
theorem concat_eq_iff {before after : List Term} {x : Term} :
    ds ++ [d] = before ++ x :: after ↔
      (before = ds ∧ x = d ∧ after = []) ∨
        ∃ more, ds = before ++ x :: more ∧ after = more ++ [d] := by
  constructor
  · intro h
    rcases List.eq_nil_or_concat after with rfl | ⟨more, last, rfl⟩
    · obtain ⟨rfl, hx⟩ := List.append_inj' h rfl
      cases hx
      exact .inl ⟨rfl, rfl, rfl⟩
    · have hlast : ds ++ [d] = (before ++ x :: more) ++ [last] := by simpa using h
      obtain ⟨rfl, hd⟩ := List.append_inj' hlast rfl
      cases hd
      exact .inr ⟨more, rfl, List.concat_eq_append⟩
  · rintro (⟨rfl, rfl, rfl⟩ | ⟨more, rfl, rfl⟩)
    · rfl
    · simp

theorem allFit_concat : AllFit linear (ds ++ [d]) ↔ AllFit linear ds ∧ Fits linear ds d := by
  constructor
  · intro h
    refine ⟨fun before x after heq => ?_, h ds d [] rfl⟩
    exact h before x (after ++ [d]) (concat_eq_iff.2 (.inr ⟨after, heq, rfl⟩))
  · rintro ⟨hall, hlast⟩ before x after heq
    rcases concat_eq_iff.1 heq with ⟨rfl, rfl, -⟩ | ⟨more, hmore, -⟩
    · exact hlast
    · exact hall before x more hmore

theorem load_concat (linear : Bool) (ds : List Term) (d : Term) :
    load linear (ds ++ [d]) = load linear ds >>= fun p => p.add linear d := by
  simp only [load, List.foldlM_append, List.foldlM_cons, List.foldlM_nil, bind_pure]

theorem load_ok_iff_fits :
    load linear ds = .ok p ↔ AllFit linear ds ∧ p = ofDeclarations linear ds := by
  induction ds using List.reverseRecOn generalizing p with
  | nil =>
    have hnone : AllFit linear [] := by
      intro before d after heq
      simp at heq
    refine ⟨?_, ?_⟩
    · rintro ⟨⟩
      exact ⟨hnone, rfl⟩
    · rintro ⟨-, rfl⟩
      rfl
  | append_singleton ds d ih =>
    rw [load_concat, allFit_concat]
    constructor
    · intro h
      cases hload : load linear ds with
      | error err =>
        rw [hload] at h
        cases h
      | ok q =>
        rw [hload] at h
        obtain ⟨hall, rfl⟩ := ih.1 hload
        obtain ⟨hfits, rfl⟩ := add_ofDeclarations_ok_iff.1 h
        exact ⟨⟨hall, hfits⟩, rfl⟩
    · rintro ⟨⟨hall, hfits⟩, rfl⟩
      rw [ih.2 ⟨hall, rfl⟩]
      exact hfits.add

/-- Loading ends with the error of the first declaration that does not fit. -/
theorem load_error_iff_refused {err : LoadError} :
    load linear ds = .error err ↔ ∃ before d after, ds = before ++ d :: after ∧
      AllFit linear before ∧ Refused linear before d err := by
  induction ds using List.reverseRecOn with
  | nil =>
    refine ⟨?_, ?_⟩
    · rintro ⟨⟩
    · rintro ⟨before, d, after, heq, -⟩
      simp at heq
  | append_singleton ds d ih =>
    rw [load_concat]
    constructor
    · intro h
      cases hload : load linear ds with
      | error other =>
        rw [hload] at h
        cases h
        obtain ⟨before, x, after, heq, hfits, hrefused⟩ := ih.1 hload
        exact ⟨before, x, after ++ [d], concat_eq_iff.2 (.inr ⟨after, heq, rfl⟩), hfits, hrefused⟩
      | ok q =>
        rw [hload] at h
        obtain ⟨hall, rfl⟩ := load_ok_iff_fits.1 hload
        exact ⟨ds, d, [], rfl, hall, add_ofDeclarations_error_iff.1 h⟩
    · rintro ⟨before, x, after, heq, hfits, hrefused⟩
      rcases concat_eq_iff.1 heq with ⟨rfl, rfl, -⟩ | ⟨more, hmore, -⟩
      · rw [load_ok_iff_fits.2 ⟨hfits, rfl⟩]
        exact hrefused.add
      · rw [ih.2 ⟨before, x, more, hmore, hfits, hrefused⟩]
        rfl

/-! ## Answers -/

/-- The clauses among some declarations that go by a name, in order. -/
def declaredClauses (ds : List Term) (name : String) : List Clause :=
  (ds.filterMap Term.clause?).filter (·.name = name)

/-- What a program answers, said of the declarations it was loaded from. -/
structure Sorted (p : Program) (ds : List Term) : Prop where
  /-- Types are listed in the order of declaration. -/
  types : p.types.names = ds.filterMap Term.typeName?
  /-- The type of a name is the declaration with that name. -/
  type : ∀ name t, p.types.resolve name = .ok t ↔ t ∈ ds ∧ t.typeName? = some name
  /-- Functions are listed in the order of their first clauses, each once. -/
  functions : p.clauses.names = ((ds.filterMap Term.clause?).map Clause.name).eraseDups
  /-- A function has all the clauses declared for it, in order; without any it is unknown. -/
  clauses : ∀ name, p.clausesOf name =
    if (declaredClauses ds name).isEmpty then .error ⟨name⟩ else .ok (declaredClauses ds name)
  /-- Signatures are listed in the order of declaration. -/
  bindings : p.bindings.names = (ds.filterMap Term.signature?).map Prod.fst
  /-- The signature of a name is the one declared for it. -/
  binding : ∀ name type, p.bindings.resolve name = .ok type ↔
    (name, type) ∈ ds.filterMap Term.signature?
  /-- A name without a signature has none in the program. -/
  unbound : ∀ name, p.bindings.resolve name = .error (.notDefined name) ↔
    name ∉ (ds.filterMap Term.signature?).map Prod.fst
  /-- A constructor builds the type that declared it last. -/
  constructor : ∀ name, p.typeOfConstructor? name = (ds.flatMap Term.built).reverse.lookup name
  /-- The functions without a signature are those that have clauses only. -/
  undeclared : p.undeclared = ((ds.filterMap Term.clause?).map Clause.name).eraseDups.filter
    fun name => decide (name ∉ (ds.filterMap Term.signature?).map Prod.fst)

/-- Declarations that are loaded are sorted. -/
theorem load_sorted (h : load linear ds = .ok p) : p.Sorted ds := by
  obtain ⟨hforms, hdistinct, rfl⟩ := load_eq_ok_iff.1 h
  have htypes := entries_types_ofItems hdistinct
  have hbindings := entries_bindings_ofItems hdistinct
  have hfunctions := names_clauses_ofItems (ds.filterMap (item? linear))
  rw [filterMap_type?] at htypes
  rw [filterMap_binding?] at hbindings
  rw [filterMap_clause? hforms] at hfunctions
  have htypeNames : (ofItems (ds.filterMap (item? linear))).types.names
      = ds.filterMap Term.typeName? := by
    rw [Environment.names, htypes, List.map_filterMap]
    refine List.filterMap_congr fun d _ => ?_
    cases d.typeName? <;> rfl
  have hbindingNames : (ofItems (ds.filterMap (item? linear))).bindings.names
      = (ds.filterMap Term.signature?).map Prod.fst := by
    rw [Environment.names, hbindings]
  have hdistinctTypes := hdistinct.types
  have hdistinctBindings := hdistinct.bindings
  rw [filterMap_typeName?, ← htypeNames] at hdistinctTypes
  rw [filterMap_binding?, ← hbindingNames] at hdistinctBindings
  refine ⟨htypeNames, fun name t => ?_, hfunctions, fun name => ?_, hbindingNames,
    fun name type => ?_, fun name => ?_, fun name => ?_, ?_⟩
  · rw [Environment.resolve_eq_ok_iff, Environment.get?_eq_some_iff_mem hdistinctTypes, htypes,
      List.mem_filterMap]
    simp only [Option.map_eq_some_iff, Prod.mk.injEq]
    constructor
    · rintro ⟨d, hd, other, hother, rfl, rfl⟩
      exact ⟨hd, hother⟩
    · rintro ⟨ht, hname⟩
      exact ⟨t, ht, name, hname, rfl, rfl⟩
  · rw [clausesOf, clauses_ofItems, clausesFor, filterMap_clause? hforms, ← declaredClauses]
    cases declaredClauses ds name <;> rfl
  · rw [Environment.resolve_eq_ok_iff, Environment.get?_eq_some_iff_mem hdistinctBindings, hbindings]
  · rw [Environment.resolve_eq_error_iff, ← hbindingNames, Environment.mem_names_iff,
      Bool.not_eq_true]
  · rw [typeOfConstructor?, constructors_ofItems, flatMap_built]
  · rw [undeclared, hfunctions]
    refine List.filter_congr fun name _ => ?_
    rw [← hbindingNames, Bool.eq_iff_iff, decide_eq_true_iff, Environment.mem_names_iff]
    simp

/-- **A program is the partition of its declarations.** Declarations are loaded exactly if each of
    them fits behind those before it; otherwise loading fails with the error of the first that does
    not fit. What a loaded program answers is read off its declarations. -/
theorem load_partitions (config : Config) (ds : List Term) :
    ((∃ p, load config.linear ds = .ok p) ↔
      ∀ before d after, ds = before ++ d :: after → Fits config.linear before d) ∧
    (∀ err, load config.linear ds = .error err ↔ ∃ before d after, ds = before ++ d :: after ∧
      AllFit config.linear before ∧ ¬ Fits config.linear before d ∧
        Refused config.linear before d err ∧ err.cause = d.misfit) ∧
    ∀ p, load config.linear ds = .ok p → p.Sorted ds := by
  refine ⟨?_, fun err => ?_, fun p => load_sorted⟩
  · constructor
    · rintro ⟨p, hp⟩
      exact (load_ok_iff_fits.1 hp).1
    · intro hfits
      exact ⟨_, load_ok_iff_fits.2 ⟨hfits, rfl⟩⟩
  · rw [load_error_iff_refused]
    constructor
    · rintro ⟨before, d, after, heq, hbefore, hrefused⟩
      exact ⟨before, d, after, heq, hbefore, hrefused.not_fits, hrefused, hrefused.cause_eq⟩
    · rintro ⟨before, d, after, heq, hbefore, -, hrefused, -⟩
      exact ⟨before, d, after, heq, hbefore, hrefused⟩

/-- Clauses of two functions in turn, one of which repeats a variable, and a type between them that
    takes over a constructor. -/
def interleavedDeclarations : List Term :=
  [.entity [.ident "t", .app [.ident "a"]],
    .define (.app [.ident "f", .ident "a"]) (.ident "a"),
    .define (.app [.ident "g", .ident "X", .ident "X"]) (.ident "X"),
    .entity [.ident "u", .app [.ident "a", .ident "t"]],
    .builtin (.ident "g") (.ident "t"),
    .define (.app [.ident "f", .ident "_"]) (.ident "b")]

/-- Without the restriction to linear patterns all of them fit. With it the clause that repeats a
    variable is the first that does not. -/
theorem load_partitions_interleaved :
    (∃ p, load false interleavedDeclarations = .ok p ∧ p.clauses.names = ["f", "g"] ∧
      p.clausesOf "f" = .ok [⟨"f", [.literal (.ident "a")], .ident "a", [.ident "f", .ident "a"]⟩,
        ⟨"f", [.wildcard], .ident "b", [.ident "f", .ident "_"]⟩] ∧
      p.typeOfConstructor? "a" = some "u" ∧ p.undeclared = ["f"]) ∧
    load true interleavedDeclarations = .error (.repeatedVariable "g" "X") ∧
      ∃ before d after, interleavedDeclarations = before ++ d :: after ∧
        ¬ Fits true before d ∧ d.misfit = .repeatedVariable := by
  have hload : load Config.bare.linear interleavedDeclarations = .ok _ := rfl
  have hsorted := (load_partitions .bare interleavedDeclarations).2.2 _ hload
  have herror : load true interleavedDeclarations = .error (.repeatedVariable "g" "X") := rfl
  obtain ⟨before, d, after, heq, -, hnot, -, hcause⟩ :=
    ((load_partitions { Config.bare with linear := true } interleavedDeclarations).2.1 _).1 herror
  refine ⟨⟨_, hload, ?_, ?_, ?_, ?_⟩, herror, before, d, after, heq, hnot, hcause.symm⟩
  · rw [hsorted.functions]
    decide
  · rw [hsorted.clauses]
    decide
  · rw [hsorted.constructor]
    decide
  · rw [hsorted.undeclared]
    decide

end Program

end Clausal
