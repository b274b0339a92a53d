/-
  Clausal.Proofs.Loading

  What loading makes of some declarations. A declaration that has the form of one adds an item: a
  type, a clause or a signature (`Program.item?`). Declarations are loaded exactly if each of them
  adds an item and no name of a type or of a signature is declared twice, and the program is then
  put together from the items in order (`Program.load_eq_ok_iff`). What is found in it is read off
  the items: all the clauses of a name in order (`Program.clauses_ofItems`), the signature of a name
  (`Program.bindings_ofItems`), and the names of constructors (`Program.isSome_typeOfConstructor?`).
-/
import Clausal.Proofs.WellFormed
import Mathlib.Data.List.Nodup

namespace Clausal

namespace Program

/-! ## Items -/

/-- What a declaration adds to a program. -/
inductive Item where
  | type (name : String) (elems : List Term)
  | clause (c : Clause)
  | binding (name : String) (type : Term)

/-- What a declaration adds, if it has the form of one. -/
def item? (linear : Bool) : Term → Option Item
  | .entity (head :: rest) => some (.type head.render (head :: rest))
  | .define left right => (Clause.compile linear left right).toOption.map .clause
  | .isa (.ident name) right => some (.binding name right)
  | .builtin (.ident name) right => some (.binding name right)
  | _ => none

namespace Item

def typeName? : Item → Option String
  | .type name _ => some name
  | _ => none

def clause? : Item → Option Clause
  | .clause c => some c
  | _ => none

def binding? : Item → Option (String × Term)
  | .binding name right => some (name, right)
  | _ => none

def constructors : Item → List String
  | .type _ elems => (Term.constructors elems).filterMap constructorName?
  | _ => []

end Item

/-- The program with an item added to it, whatever it had before. -/
def insert (p : Program) : Item → Program
  | .type name elems =>
    { p with
      types := p.types.put name (.entity elems)
      constructors := (((Term.constructors elems).filterMap constructorName?).map
        fun c => (c, name)).reverse ++ p.constructors }
  | .clause c => p.addClause c
  | .binding name type => { p with bindings := p.bindings.put name type }

/-- The name of an item is not taken. Clauses share their names. -/
def Free (p : Program) : Item → Prop
  | .type name _ => p.types.contains name = false
  | .clause _ => True
  | .binding name _ => p.bindings.contains name = false

variable {linear : Bool} {p p' : Program}

theorem addType_eq_ok_iff {head : Term} {rest : List Term} :
    p.addType (head :: rest) = .ok p' ↔
      p.Free (.type head.render (head :: rest)) ∧
        p' = p.insert (.type head.render (head :: rest)) := by
  rw [addType, Environment.define, Free, insert]
  cases p.types.contains head.render with
  | true => simp
  | false => simp [eq_comm]

theorem addBinding_eq_ok_iff {name : String} {type : Term} :
    p.addBinding (.ident name) type = .ok p' ↔
      p.Free (.binding name type) ∧ p' = p.insert (.binding name type) := by
  rw [addBinding, Environment.define, Free, insert]
  cases p.bindings.contains name with
  | true => simp
  | false => simp [eq_comm]

/-- A clause is added exactly if it compiles. -/
theorem addCompiled_eq_ok_iff {left right : Term} :
    (Clause.compile linear left right).map p.addClause = .ok p' ↔
      ∃ c, Clause.compile linear left right = .ok c ∧ p' = p.insert (.clause c) := by
  cases Clause.compile linear left right with
  | error err => simp [Except.map]
  | ok c => simp [Except.map, insert, eq_comm]

/-- A clause is what a clause adds that compiles. -/
theorem item?_eq_clause {d : Term} {c : Clause} (h : item? linear d = some (.clause c)) :
    ∃ left right, d = .define left right ∧ Clause.compile linear left right = .ok c := by
  unfold item? at h
  split at h
  · cases h
  · rename_i left right
    refine ⟨left, right, rfl, ?_⟩
    cases hcompile : Clause.compile linear left right with
    | error err =>
      rw [hcompile] at h
      cases h
    | ok c' =>
      rw [hcompile] at h
      cases h
      rfl
  · cases h
  · cases h
  · cases h

/-- A declaration is added exactly if it adds an item whose name is not taken. -/
theorem add_eq_ok_iff {d : Term} :
    p.add linear d = .ok p' ↔ ∃ item, item? linear d = some item ∧ p.Free item ∧
      p' = p.insert item := by
  cases d with
  | seq kind elems =>
    cases kind with
    | entity =>
      cases elems with
      | nil => simp [add, addType, item?]
      | cons head rest => simp [add, addType_eq_ok_iff, item?]
    | application => simp [add, item?]
    | arrow => simp [add, item?]
  | rel kind left right =>
    cases kind with
    | clause =>
      rw [add, addCompiled_eq_ok_iff, item?]
      cases Clause.compile linear left right with
      | error err => simp [Except.toOption]
      | ok c => simp [Except.toOption, Free]
    | typing =>
      cases left with
      | ident name => simp [add, addBinding_eq_ok_iff, item?]
      | _ => simp [add, addBinding, item?]
    | equation => simp [add, item?]
  | builtin left right =>
    cases left with
    | ident name => simp [add, addBinding_eq_ok_iff, item?]
    | _ => simp [add, addBinding, item?]
  | _ => simp [add, item?]

/-! ## Programs of items -/

/-- The program that some items make. -/
def ofItems (items : List Item) : Program := items.foldl insert .empty

theorem ofItems_concat (items : List Item) (item : Item) :
    ofItems (items ++ [item]) = (ofItems items).insert item := List.foldl_concat _ _ _ _

theorem contains_types_ofItems {items : List Item} {name : String} :
    (ofItems items).types.contains name = true ↔ name ∈ items.filterMap Item.typeName? := by
  induction items using List.reverseRecOn with
  | nil => simp [ofItems, empty, Environment.contains, Environment.get?, Environment.empty]
  | append_singleton items item ih =>
    rw [ofItems_concat, List.filterMap_append, List.mem_append, ← ih]
    cases item with
    | type other elems =>
      rw [insert, Environment.contains, Environment.get?_put]
      by_cases h : name = other <;> simp [h, Item.typeName?, Environment.contains]
    | clause c => simp [insert, addClause, Item.typeName?]
    | binding other type => simp [insert, Item.typeName?]

/-- The signature of a name is the one that was declared for it last. -/
theorem bindings_ofItems (items : List Item) (name : String) :
    (ofItems items).bindings.get? name = (items.filterMap Item.binding?).reverse.lookup name := by
  induction items using List.reverseRecOn with
  | nil => rfl
  | append_singleton items item ih =>
    rw [ofItems_concat, List.filterMap_append, List.reverse_append, List.lookup_append, ← ih]
    cases item with
    | binding other type =>
      rw [insert, Environment.get?_put]
      by_cases h : name = other
      · simp [h, Item.binding?]
      · simp [h, Item.binding?, List.lookup_cons, beq_false_of_ne h]
    | clause c => rfl
    | type other elems => rfl

/-- The clauses among some items that go by a name, in order. -/
def clausesFor (items : List Item) (name : String) : List Clause :=
  (items.filterMap Item.clause?).filter (·.name = name)

/-- A name has its clauses in the order of declaration, and none at all if none was declared. -/
theorem clauses_ofItems (items : List Item) (name : String) :
    (ofItems items).clauses.get? name
      = if (clausesFor items name).isEmpty then none else some (clausesFor items name) := by
  induction items using List.reverseRecOn with
  | nil => rfl
  | append_singleton items item ih =>
    have hconcat : clausesFor (items ++ [item]) name
        = clausesFor items name ++ item.clause?.toList.filter (·.name = name) := by
      rw [clausesFor, List.filterMap_append, List.filter_append, clausesFor]
      cases h : item.clause? <;> simp [h]
    rw [ofItems_concat, hconcat]
    cases item with
    | clause c =>
      rw [insert, addClause, Environment.get?_put]
      by_cases h : name = c.name
      · subst h
        rw [ih]
        cases clausesFor items c.name <;> simp [Item.clause?]
      · simp [h, Ne.symm h, Item.clause?, ih]
    | binding other right => simpa [insert, Item.clause?] using ih
    | type other elems => simpa [insert, Item.clause?] using ih

theorem isSome_typeOfConstructor? {items : List Item} {name : String} :
    ((ofItems items).typeOfConstructor? name).isSome = true ↔
      name ∈ items.flatMap Item.constructors := by
  induction items using List.reverseRecOn with
  | nil => simp [ofItems, empty, typeOfConstructor?]
  | append_singleton items item ih =>
    rw [ofItems_concat, List.flatMap_append, List.mem_append, ← ih]
    cases item with
    | type other elems =>
      rw [insert, typeOfConstructor?, List.lookup_append, Option.isSome_or, Bool.or_eq_true, or_comm]
      simp [typeOfConstructor?, Item.constructors]
    | clause c => simp [insert, addClause, typeOfConstructor?, Item.constructors]
    | binding other right => simp [insert, typeOfConstructor?, Item.constructors]

/-! ## Loading -/

/-- No name of a type and no name of a signature is declared twice. -/
structure Distinct (items : List Item) : Prop where
  types : (items.filterMap Item.typeName?).Nodup
  bindings : ((items.filterMap Item.binding?).map Prod.fst).Nodup

theorem contains_bindings_ofItems {items : List Item} {name : String} :
    (ofItems items).bindings.contains name = true ↔
      name ∈ (items.filterMap Item.binding?).map Prod.fst := by
  rw [Environment.contains, bindings_ofItems, List.lookup_isSome_iff]
  simp

/-- One more item leaves the names distinct if its own is not taken. -/
theorem distinct_concat {items : List Item} {item : Item} :
    Distinct (items ++ [item]) ↔ Distinct items ∧ (ofItems items).Free item := by
  have hiff : ∀ items, Distinct items ↔ (items.filterMap Item.typeName?).Nodup ∧
      ((items.filterMap Item.binding?).map Prod.fst).Nodup :=
    fun items => ⟨fun h => ⟨h.types, h.bindings⟩, fun h => ⟨h.1, h.2⟩⟩
  rw [hiff, hiff, List.filterMap_append, List.filterMap_append, List.map_append]
  cases item with
  | type name elems =>
    have hnames : [Item.type name elems].filterMap Item.typeName? = [name] := rfl
    have hsignatures : [Item.type name elems].filterMap Item.binding? = [] := rfl
    rw [Free, ← Bool.not_eq_true, contains_types_ofItems, hnames, hsignatures, List.map_nil,
      List.append_nil, ← List.concat_eq_append, List.nodup_concat]
    tauto
  | clause c =>
    have hnames : [Item.clause c].filterMap Item.typeName? = [] := rfl
    have hsignatures : [Item.clause c].filterMap Item.binding? = [] := rfl
    rw [Free, hnames, hsignatures, List.map_nil, List.append_nil, List.append_nil, and_true]
  | binding name right =>
    have hnames : [Item.binding name right].filterMap Item.typeName? = [] := rfl
    have hsignatures : [Item.binding name right].filterMap Item.binding? = [(name, right)] := rfl
    rw [Free, ← Bool.not_eq_true, contains_bindings_ofItems, hnames, hsignatures, List.map_singleton,
      List.append_nil, ← List.concat_eq_append, List.nodup_concat]
    tauto

/-- **What loading makes of some declarations.** They are loaded exactly if each of them has the
    form of one and no name of a type or of a signature comes twice, and then the program is put
    together from what they add. -/
theorem load_eq_ok_iff {ds : List Term} :
    load linear ds = .ok p ↔ (∀ d ∈ ds, (item? linear d).isSome = true) ∧
      Distinct (ds.filterMap (item? linear)) ∧ p = ofItems (ds.filterMap (item? linear)) := by
  induction ds using List.reverseRecOn generalizing p with
  | nil =>
    have hdistinct : Distinct [] := ⟨List.nodup_nil, List.nodup_nil⟩
    constructor
    · rintro ⟨⟩
      exact ⟨by rintro d ⟨⟩, hdistinct, rfl⟩
    · rintro ⟨-, -, rfl⟩
      rfl
  | append_singleton ds d ih =>
    have hconcat : load linear (ds ++ [d]) = .ok p ↔
        ∃ q, load linear ds = .ok q ∧ q.add linear d = .ok p := by
      simp only [load, List.foldlM_append, List.foldlM_cons, List.foldlM_nil, bind_pure]
      cases ds.foldlM (add linear) .empty with
      | error err => simp [bind, Except.bind]
      | ok q => simp [bind, Except.bind]
    rw [hconcat, List.filterMap_append]
    constructor
    · rintro ⟨q, hq, hadd⟩
      obtain ⟨hforms, hdistinct, rfl⟩ := ih.1 hq
      obtain ⟨item, hitem, hfree, rfl⟩ := add_eq_ok_iff.1 hadd
      have hlast : [d].filterMap (item? linear) = [item] := by simp [hitem]
      rw [hlast]
      refine ⟨?_, distinct_concat.2 ⟨hdistinct, hfree⟩, (ofItems_concat _ _).symm⟩
      rw [List.forall_mem_append, List.forall_mem_singleton, hitem]
      exact ⟨hforms, rfl⟩
    · rintro ⟨hforms, hdistinct, rfl⟩
      rw [List.forall_mem_append, List.forall_mem_singleton] at hforms
      obtain ⟨item, hitem⟩ := Option.isSome_iff_exists.1 hforms.2
      have hlast : [d].filterMap (item? linear) = [item] := by simp [hitem]
      rw [hlast] at hdistinct ⊢
      obtain ⟨hdistinct, hfree⟩ := distinct_concat.1 hdistinct
      exact ⟨_, ih.2 ⟨hforms.1, hdistinct, rfl⟩, add_eq_ok_iff.2 ⟨item, hitem, hfree,
        ofItems_concat _ _⟩⟩

/-- Every clause of a loaded program was declared. -/
theorem exists_declaration {ds : List Term} (hload : load linear ds = .ok p) {name : String}
    {clauses : List Clause} (hclauses : p.clauses.get? name = some clauses) {c : Clause}
    (hc : c ∈ clauses) :
    ∃ left right, .define left right ∈ ds ∧ Clause.compile linear left right = .ok c := by
  obtain ⟨-, -, rfl⟩ := load_eq_ok_iff.1 hload
  rw [clauses_ofItems] at hclauses
  split at hclauses
  · cases hclauses
  · cases hclauses
    obtain ⟨item, hitem, hclause⟩ := List.mem_filterMap.1 (List.mem_filter.1 hc).1
    obtain ⟨d, hd, hdeclared⟩ := List.mem_filterMap.1 hitem
    cases item with
    | clause c' =>
      cases hclause
      obtain ⟨left, right, rfl, hcompile⟩ := item?_eq_clause hdeclared
      exact ⟨left, right, hd, hcompile⟩
    | type other elems => cases hclause
    | binding other right => cases hclause

end Program

end Clausal
