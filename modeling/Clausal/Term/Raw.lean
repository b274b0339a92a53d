/-
  Clausal.Term.Raw

  Terms as they are fingerprinted. A fingerprint takes a name for the bytes that it is made of, and
  they may be any bytes, whether a text has them or not. So a raw term is built like a term, but its
  names are bytes. Every term has a raw one, with the bytes of its names, and nothing is lost on the
  way (`Term.same_raw`).
-/
import Clausal.Term.Basic

namespace Clausal

/-- Terms whose names are any bytes. -/
inductive RawTerm where
  | ident (name : List UInt8)
  | group (inner : RawTerm)
  | seq (kind : Term.Sequence) (elems : List RawTerm)
  | rel (kind : Term.Relation) (left right : RawTerm)
  | builtin (left right : RawTerm)
  | marker
  | builtinMarker
  | hole
  deriving Repr, Inhabited

namespace RawTerm

@[match_pattern] abbrev app (elems : List RawTerm) : RawTerm := .seq .application elems

/-! ## Equality -/

mutual

/-- Whether two raw terms are built alike. -/
def same : RawTerm → RawTerm → Bool
  | .ident m, .ident n => m == n
  | .group s, .group t => s.same t
  | .seq j xs, .seq k ys => j == k && sameAll xs ys
  | .rel j a b, .rel k c d => j == k && (a.same c && b.same d)
  | .builtin a b, .builtin c d => a.same c && b.same d
  | .marker, .marker => true
  | .builtinMarker, .builtinMarker => true
  | .hole, .hole => true
  | _, _ => false

/-- Whether two lists of raw terms are equally long and agree place by place. -/
def sameAll : List RawTerm → List RawTerm → Bool
  | [], [] => true
  | s :: ss, t :: ts => s.same t && sameAll ss ts
  | _, _ => false

end

mutual

theorem same_refl : (t : RawTerm) → t.same t = true
  | .ident n => by simp [same]
  | .group t => by simp [same, same_refl t]
  | .seq k xs => by simp [same, sameAll_refl xs]
  | .rel k a b => by simp [same, same_refl a, same_refl b]
  | .builtin a b => by simp [same, same_refl a, same_refl b]
  | .marker => rfl
  | .builtinMarker => rfl
  | .hole => rfl

theorem sameAll_refl : (ts : List RawTerm) → sameAll ts ts = true
  | [] => rfl
  | t :: ts => by simp [sameAll, same_refl t, sameAll_refl ts]

end

mutual

theorem eq_of_same : {s t : RawTerm} → s.same t = true → s = t
  | .ident m, t, h => by cases t <;> simp_all [same]
  | .group s, t, h => by
    cases t <;> simp [same] at h
    rw [eq_of_same h]
  | .seq j xs, t, h => by
    cases t <;> simp [same] at h
    rw [h.1, eq_of_sameAll h.2]
  | .rel j a b, t, h => by
    cases t <;> simp [same] at h
    rw [h.1, eq_of_same h.2.1, eq_of_same h.2.2]
  | .builtin a b, t, h => by
    cases t <;> simp [same] at h
    rw [eq_of_same h.1, eq_of_same h.2]
  | .marker, t, h => by cases t <;> simp_all [same]
  | .builtinMarker, t, h => by cases t <;> simp_all [same]
  | .hole, t, h => by cases t <;> simp_all [same]

/-- Lists of raw terms that agree place by place are equal. -/
theorem eq_of_sameAll : {ss ts : List RawTerm} → sameAll ss ts = true → ss = ts
  | [], ts, h => by cases ts <;> simp_all [sameAll]
  | s :: ss, ts, h => by
    cases ts <;> simp [sameAll] at h
    rw [eq_of_same h.1, eq_of_sameAll h.2]

end

/-- `same` decides equality. -/
theorem same_iff {s t : RawTerm} : s.same t = true ↔ s = t :=
  ⟨eq_of_same, fun h => h ▸ same_refl s⟩

theorem sameAll_iff {ss ts : List RawTerm} : sameAll ss ts = true ↔ ss = ts :=
  ⟨eq_of_sameAll, fun h => h ▸ sameAll_refl ss⟩

instance : DecidableEq RawTerm := fun _ _ => decidable_of_iff _ same_iff

end RawTerm

/-! ## The raw term of a term -/

/-- The bytes of a text. -/
def textBytes (s : String) : List UInt8 := s.toUTF8.data.toList

/-- A text is known by its bytes. -/
theorem textBytes_inj {s t : String} : textBytes s = textBytes t ↔ s = t := by
  refine ⟨fun h => ?_, congrArg textBytes⟩
  have hdata : s.toUTF8.data = t.toUTF8.data := Array.toList_inj.1 h
  exact String.toByteArray_inj.1 (ByteArray.ext hdata)

namespace Term

mutual

/-- A term with the bytes of its names. -/
def raw : Term → RawTerm
  | .ident n => .ident (textBytes n)
  | .group t => .group t.raw
  | .seq k xs => .seq k (rawAll xs)
  | .rel k a b => .rel k a.raw b.raw
  | .builtin a b => .builtin a.raw b.raw
  | .marker => .marker
  | .builtinMarker => .builtinMarker
  | .hole => .hole

def rawAll : List Term → List RawTerm
  | [] => []
  | t :: ts => t.raw :: rawAll ts

end

@[simp] theorem rawAll_eq_map (ts : List Term) : rawAll ts = ts.map raw := by
  induction ts with
  | nil => rfl
  | cons t ts ih => simp [rawAll, ih]

mutual

/-- Raw terms are built alike exactly if the terms are. -/
theorem same_raw : (s t : Term) → s.raw.same t.raw = s.same t
  | .ident m, t => by
    cases t with
    | ident n =>
      show (textBytes m == textBytes n) = (m == n)
      rw [Bool.eq_iff_iff, beq_iff_eq, beq_iff_eq, textBytes_inj]
    | _ => rfl
  | .group s, t => by
    cases t with
    | group t => exact same_raw s t
    | _ => rfl
  | .seq j xs, t => by
    cases t with
    | seq k ys => exact congrArg (j == k && ·) (sameAll_raw xs ys)
    | _ => rfl
  | .rel j a b, t => by
    cases t with
    | rel k c d => rw [raw, raw, RawTerm.same, same, same_raw a c, same_raw b d]
    | _ => rfl
  | .builtin a b, t => by
    cases t with
    | builtin c d => rw [raw, raw, RawTerm.same, same, same_raw a c, same_raw b d]
    | _ => rfl
  | .marker, t => by cases t <;> rfl
  | .builtinMarker, t => by cases t <;> rfl
  | .hole, t => by cases t <;> rfl

theorem sameAll_raw : (ss ts : List Term) →
    RawTerm.sameAll (rawAll ss) (rawAll ts) = sameAll ss ts
  | [], ts => by cases ts <;> rfl
  | s :: ss, ts => by
    cases ts with
    | nil => rfl
    | cons t ts => rw [rawAll, rawAll, RawTerm.sameAll, sameAll, same_raw s t, sameAll_raw ss ts]

end

end Term

end Clausal
