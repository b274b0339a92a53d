/-
  Clausal.Term.Basic

  Terms: the one tree that declarations, expressions and values are made of. A sequence is
  an application, an arrow or a type declaration; a relation is a signature, an equation or
  a clause. A place where a term is missing is a term too, the hole.

  Two terms are equal when they are built alike. `Term.same` decides it, and
  `Term.same_iff` says that it does.
-/
namespace Clausal

/-- The kinds of sequence: a head applied to arguments, a chain of arrows, and a type with
    its parameters and constructors. -/
inductive Term.Sequence where
  | application
  | arrow
  | entity
  deriving DecidableEq, Repr, Inhabited

/-- The kinds of relation: a name and its type, two equal sides, a clause and its body. -/
inductive Term.Relation where
  | typing
  | equation
  | clause
  deriving DecidableEq, Repr, Inhabited

/-- Terms. `group` records that a term was written in parentheses. The two markers stand on
    the parser's stack while a declaration is being put together. -/
inductive Term where
  | ident (name : String)
  | group (inner : Term)
  | seq (kind : Term.Sequence) (elems : List Term)
  | rel (kind : Term.Relation) (left right : Term)
  | builtin (left right : Term)
  | marker
  | builtinMarker
  | hole
  deriving Repr, Inhabited

namespace Term

/-! ## Kinds of sequence and relation as constructors -/

@[match_pattern] abbrev app (elems : List Term) : Term := .seq .application elems

@[match_pattern] abbrev arrow (elems : List Term) : Term := .seq .arrow elems

/-- A type declaration: the type's name, its parameters, its constructors. -/
@[match_pattern] abbrev entity (elems : List Term) : Term := .seq .entity elems

@[match_pattern] abbrev isa (left right : Term) : Term := .rel .typing left right

@[match_pattern] abbrev equation (left right : Term) : Term := .rel .equation left right

/-- A clause: a pattern on the left, a body on the right. -/
@[match_pattern] abbrev define (left right : Term) : Term := .rel .clause left right

/-! ## Equality -/

mutual

/-- Whether two terms are built alike. -/
def same : Term → Term → Bool
  | .ident m, .ident n => m == n
  | .group s, .group t => s.same t
  | .seq j xs, .seq k ys => j == k && sameAll xs ys
  | .rel j a b, .rel k c d => j == k && (a.same c && b.same d)
  | .builtin a b, .builtin c d => a.same c && b.same d
  | .marker, .marker => true
  | .builtinMarker, .builtinMarker => true
  | .hole, .hole => true
  | _, _ => false

/-- Whether two lists of terms are equally long and agree place by place. -/
def sameAll : List Term → List Term → Bool
  | [], [] => true
  | s :: ss, t :: ts => s.same t && sameAll ss ts
  | _, _ => false

end

mutual

theorem same_refl : (t : Term) → t.same t = true
  | .ident n => by simp [same]
  | .group t => by simp [same, same_refl t]
  | .seq k xs => by simp [same, sameAll_refl xs]
  | .rel k a b => by simp [same, same_refl a, same_refl b]
  | .builtin a b => by simp [same, same_refl a, same_refl b]
  | .marker => rfl
  | .builtinMarker => rfl
  | .hole => rfl

theorem sameAll_refl : (ts : List Term) → sameAll ts ts = true
  | [] => rfl
  | t :: ts => by simp [sameAll, same_refl t, sameAll_refl ts]

end

mutual

theorem eq_of_same : {s t : Term} → s.same t = true → s = t
  | .ident m, t, h => by cases t <;> simp_all [same]
  | .group s, t, h => by
    cases t <;> simp [same] at h
    rw [eq_of_same h]
  | .seq j xs, t, h => by
    cases t <;> simp [same] at h
    rw [h.1, eq_of_sameAll h.2]
  | .rel j a b, t, h => by
    cases t <;> simp [same] at h
    rw [h.1, eq_of_same h.2.1, eq_of_same h.2.2]
  | .builtin a b, t, h => by
    cases t <;> simp [same] at h
    rw [eq_of_same h.1, eq_of_same h.2]
  | .marker, t, h => by cases t <;> simp_all [same]
  | .builtinMarker, t, h => by cases t <;> simp_all [same]
  | .hole, t, h => by cases t <;> simp_all [same]

/-- Lists of terms that agree place by place are equal. -/
theorem eq_of_sameAll : {ss ts : List Term} → sameAll ss ts = true → ss = ts
  | [], ts, h => by cases ts <;> simp_all [sameAll]
  | s :: ss, ts, h => by
    cases ts <;> simp [sameAll] at h
    rw [eq_of_same h.1, eq_of_sameAll h.2]

end

/-- `same` decides equality. -/
theorem same_iff {s t : Term} : s.same t = true ↔ s = t :=
  ⟨eq_of_same, fun h => h ▸ same_refl s⟩

instance : DecidableEq Term := fun _ _ => decidable_of_iff _ same_iff

/-! ## Measures -/

mutual

def depth : Term → Nat
  | .group t => t.depth + 1
  | .seq _ xs => depthAll xs + 1
  | .rel _ a b => max a.depth b.depth + 1
  | .builtin a b => max a.depth b.depth + 1
  | .ident _ => 1
  | .marker => 1
  | .builtinMarker => 1
  | .hole => 1

/-- The levels of the deepest of some terms. -/
def depthAll : List Term → Nat
  | [] => 0
  | t :: ts => max t.depth (depthAll ts)

end

mutual

def size : Term → Nat
  | .group t => t.size + 1
  | .seq _ xs => sizeAll xs + 1
  | .rel _ a b => a.size + b.size + 1
  | .builtin a b => a.size + b.size + 1
  | .ident _ => 1
  | .marker => 1
  | .builtinMarker => 1
  | .hole => 1

def sizeAll : List Term → Nat
  | [] => 0
  | t :: ts => t.size + sizeAll ts

end

/-! ## Parts of sequences -/

def isIdent : Term → Bool
  | .ident _ => true
  | _ => false

def isApp : Term → Bool
  | .app _ => true
  | _ => false

/-- The parameters of a type declaration: the identifiers right behind its name. -/
def params (elems : List Term) : List Term := elems.tail.takeWhile isIdent

/-- The constructors of a type declaration: the applications behind its name. -/
def constructors (elems : List Term) : List Term := elems.tail.filter isApp

end Term

end Clausal
