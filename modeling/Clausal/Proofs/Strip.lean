/-
  Clausal.Proofs.Strip

  Parentheses carry no meaning. Taking the groups off a term commutes with putting a term in the
  place of a name (`Term.strip_subst`) and does not change the text, provided that no term is
  missing and no group stands directly in a type declaration (`Term.Solid.render_strip`).

  `Term.Formed` describes the terms that expressions are: identifiers, groups, applications and
  arrows. It is kept by whatever the evaluator does to a term.
-/
import Clausal.Term.Render
import Clausal.Term.Strip
import Clausal.Term.Subst

namespace Clausal.Term

/-! ## Induction -/

/-- Induction on terms. For a sequence every element may be assumed. -/
@[elab_as_elim]
theorem inductionOn {motive : Term → Prop} (ident : ∀ n, motive (.ident n))
    (group : ∀ t, motive t → motive (.group t))
    (seq : ∀ k xs, (∀ x ∈ xs, motive x) → motive (.seq k xs))
    (rel : ∀ k a b, motive a → motive b → motive (.rel k a b))
    (builtin : ∀ a b, motive a → motive b → motive (.builtin a b))
    (marker : motive .marker) (builtinMarker : motive .builtinMarker) (hole : motive .hole)
    (t : Term) : motive t := by
  refine @Term.rec motive (fun ts => ∀ t ∈ ts, motive t) ident group seq rel builtin marker
    builtinMarker hole ?_ ?_ t
  · intro x hx
    cases hx
  · intro t ts ht hts
    rw [List.forall_mem_cons]
    exact ⟨ht, hts⟩

/-! ## Groups taken off -/

theorem strip_strip (t : Term) : t.strip.strip = t.strip := by
  induction t using inductionOn with
  | ident n => rfl
  | group t ih => simpa [strip] using ih
  | seq k xs ih =>
    have hxs : xs.map (strip ∘ strip) = xs.map strip := List.map_congr_left ih
    simp [strip, hxs]
  | rel k a b iha ihb => simp [strip, iha, ihb]
  | builtin a b iha ihb => simp [strip, iha, ihb]
  | marker => rfl
  | builtinMarker => rfl
  | hole => rfl

/-- A name is replaced before or after the groups are taken off. A builtin signature is left alone
    either way. -/
theorem strip_subst (n : String) (r t : Term) :
    (subst (.ident n) r t).strip = subst (.ident n) r.strip t.strip := by
  induction t using inductionOn with
  | ident m =>
    by_cases h : m = n
    · simp [subst, strip, h]
    · simp [subst, strip, h]
  | group t ih => simpa [subst, strip] using ih
  | seq k xs ih =>
    have hxs : xs.map (strip ∘ subst (.ident n) r)
        = xs.map (subst (.ident n) r.strip ∘ strip) := List.map_congr_left ih
    simp [subst, strip, hxs]
  | rel k a b iha ihb => simp [subst, strip, iha, ihb]
  | builtin a b iha ihb => simp [subst, strip]
  | marker => simp [subst, strip]
  | builtinMarker => simp [subst, strip]
  | hole => simp [subst, strip]

/-! ## Text -/

def isGroup : Term → Bool
  | .group _ => true
  | _ => false

@[simp] theorem isGroup_strip (t : Term) : t.strip.isGroup = false := by
  induction t using inductionOn with
  | group t ih => exact ih
  | _ => rfl

theorem allHaveText_iff {ts : List Term} :
    allHaveText ts = true ↔ ∀ t ∈ ts, t ≠ .hole ∧ t.hasText = true := by
  induction ts with
  | nil => simp [allHaveText]
  | cons t ts ih => simp [allHaveText, ih, and_assoc]

theorem constructorsHaveText_of {ts : List Term} (h : ∀ t ∈ ts, t.hasText = true) :
    constructorsHaveText ts = true := by
  induction ts with
  | nil => rfl
  | cons t ts ih =>
    rw [List.forall_mem_cons] at h
    simp [constructorsHaveText, h.1, ih h.2]

/-- No term is missing, at whatever depth. -/
inductive Whole : Term → Prop where
  | ident (n : String) : Whole (.ident n)
  | group {t : Term} : Whole t → Whole (.group t)
  | seq {k : Sequence} {xs : List Term} : (∀ x ∈ xs, Whole x) → Whole (.seq k xs)
  | rel {k : Relation} {a b : Term} : Whole a → Whole b → Whole (.rel k a b)
  | builtin {a b : Term} : Whole a → Whole b → Whole (.builtin a b)
  | marker : Whole .marker
  | builtinMarker : Whole .builtinMarker

@[simp] theorem whole_ident (n : String) : (ident n).Whole := .ident n

@[simp] theorem whole_seq {k : Sequence} {xs : List Term} :
    (seq k xs).Whole ↔ ∀ x ∈ xs, x.Whole := by
  refine ⟨?_, .seq⟩
  rintro ⟨⟩
  assumption

@[simp] theorem whole_rel {k : Relation} {a b : Term} : (rel k a b).Whole ↔ a.Whole ∧ b.Whole := by
  refine ⟨?_, fun h => .rel h.1 h.2⟩
  rintro (_ | _ | _ | ⟨ha, hb⟩)
  exact ⟨ha, hb⟩

namespace Whole

theorem ne_hole {t : Term} (h : t.Whole) : t ≠ .hole := by
  rintro rfl
  cases h

theorem hasText {t : Term} (h : t.Whole) : t.hasText = true := by
  induction h with
  | @seq k xs hxs ih =>
    have hall : ∀ x ∈ xs, x ≠ .hole ∧ x.hasText = true := fun x hx => ⟨(hxs x hx).ne_hole, ih x hx⟩
    cases k with
    | application => exact allHaveText_iff.2 hall
    | arrow => exact allHaveText_iff.2 hall
    | entity =>
      cases xs with
      | nil => rfl
      | cons x xs =>
        rw [List.forall_mem_cons] at hall
        have hrest := constructorsHaveText_of fun y hy => (hall.2 y hy).2
        simp [Term.hasText, entityHasText, hall.1.1, hall.1.2, hrest]
  | _ => rfl

theorem side_eq {t : Term} (h : t.Whole) (text : String) : side t text = text := by
  rw [side, if_neg h.ne_hole, if_pos h.hasText]

theorem subst {t r : Term} (ht : t.Whole) (hr : r.Whole) (n : String) :
    (Term.subst (.ident n) r t).Whole := by
  induction ht with
  | ident m =>
    rw [Term.subst]
    split
    · exact hr
    · exact .ident m
  | group _ ih =>
    rw [Term.subst, if_neg (by simp)]
    exact .group ih
  | @seq k xs _ ih =>
    rw [Term.subst, if_neg (by simp), substAll_eq_map]
    refine .seq ?_
    simpa using ih
  | rel _ _ iha ihb =>
    rw [Term.subst, if_neg (by simp)]
    exact .rel iha ihb
  | builtin ha hb _ _ =>
    rw [Term.subst, if_neg (by simp)]
    exact .builtin ha hb
  | marker =>
    rw [Term.subst, if_neg (by simp)]
    exact .marker
  | builtinMarker =>
    rw [Term.subst, if_neg (by simp)]
    exact .builtinMarker

end Whole

/-- No term is missing, and no group stands directly in a type declaration. -/
inductive Solid : Term → Prop where
  | ident (n : String) : Solid (.ident n)
  | group {t : Term} : Solid t → Solid (.group t)
  | seq {k : Sequence} {xs : List Term} :
      (k = .entity → ∀ x ∈ xs, x.isGroup = false) → (∀ x ∈ xs, Solid x) → Solid (.seq k xs)
  | rel {k : Relation} {a b : Term} : Solid a → Solid b → Solid (.rel k a b)
  | builtin {a b : Term} : Solid a → Solid b → Solid (.builtin a b)
  | marker : Solid .marker
  | builtinMarker : Solid .builtinMarker

namespace Solid

theorem whole {t : Term} (h : t.Solid) : t.Whole := by
  induction h with
  | ident n => exact .ident n
  | group _ ih => exact .group ih
  | seq _ _ ih => exact .seq ih
  | rel _ _ iha ihb => exact .rel iha ihb
  | builtin _ _ iha ihb => exact .builtin iha ihb
  | marker => exact .marker
  | builtinMarker => exact .builtinMarker

theorem ne_hole {t : Term} (h : t.Solid) : t ≠ .hole := h.whole.ne_hole

theorem hasText {t : Term} (h : t.Solid) : t.hasText = true := h.whole.hasText

theorem strip {t : Term} (h : t.Solid) : t.strip.Solid := by
  induction h with
  | ident n => exact .ident n
  | group _ ih => exact ih
  | @seq k xs _ _ ih =>
    rw [Term.strip, stripAll_eq_map]
    refine .seq (fun _ => ?_) ?_
    · simp
    · simpa using ih
  | rel _ _ iha ihb => exact .rel iha ihb
  | builtin _ _ iha ihb => exact .builtin iha ihb
  | marker => exact .marker
  | builtinMarker => exact .builtinMarker

theorem app {xs : List Term} (h : ∀ x ∈ xs, Solid x) : (Term.app xs).Solid :=
  .seq (fun hentity => by cases hentity) h

theorem side_eq {t : Term} (h : t.Solid) (text : String) : side t text = text :=
  h.whole.side_eq text

theorem inside_eq {t : Term} (h : t.Solid) (text : String) : inside t text = text := by
  rw [inside, if_pos h.hasText]

end Solid

/-- The text of a term as an element of a sequence. -/
def element (wrap : Term → Bool) (t : Term) : String :=
  if wrap t then "(" ++ t.render ++ ")" else t.render

theorem wrapped_render (wrap : Term → Bool) (ts : List Term) :
    wrapped wrap ts (ts.map render) = ts.map (element wrap) := by
  rw [wrapped, List.zipWith_map_right, List.zipWith_self]
  rfl

theorem render_app (ts : List Term) :
    (Term.app ts).render = joinWith " " (ts.map (element isCompound)) := by
  rw [render, renderAll_eq_map, wrapped_render]

theorem render_arrow (ts : List Term) :
    (Term.arrow ts).render = joinWith " -> " (ts.map (element isChain)) := by
  rw [render, renderAll_eq_map, wrapped_render]

theorem render_entity (t : Term) (ts : List Term) :
    (Term.entity (t :: ts)).render =
      "decltype " ++ t.render ++ String.join ((params (t :: ts)).map (" " ++ ·.render)) ++
        (if (constructors (t :: ts)).isEmpty then ""
          else " = " ++ joinWith " | " ((constructors (t :: ts)).map render)) := by
  have hzip : ts.zip (ts.map render) = ts.map fun x => (x, x.render) := by
    rw [List.zip_eq_zipWith, List.zipWith_map_right, List.zipWith_self]
  simp only [render, renderAll_eq_map, List.map_cons, renderEntity, hzip, List.takeWhile_map,
    List.filter_map, List.map_map, params, constructors, List.tail_cons]
  simp [Function.comp_def]

@[simp] theorem isCompound_strip (t : Term) : t.strip.isCompound = t.isCompound := by
  induction t using inductionOn with
  | group t ih => simpa [strip, isCompound] using ih
  | _ => simp [strip, isCompound]

@[simp] theorem isChain_strip (t : Term) : t.strip.isChain = t.isChain := by
  induction t using inductionOn with
  | group t ih => simpa [strip, isChain] using ih
  | seq k xs ih => cases k <;> simp [strip, isChain]
  | _ => simp [strip, isChain]

theorem isIdent_strip {t : Term} (h : t.isGroup = false) : t.strip.isIdent = t.isIdent := by
  cases t <;> first | rfl | cases h

theorem isApp_strip {t : Term} (h : t.isGroup = false) : t.strip.isApp = t.isApp := by
  cases t with
  | group t => cases h
  | seq k xs => cases k <;> rfl
  | _ => rfl

theorem takeWhile_isIdent_strip {ts : List Term} (h : ∀ t ∈ ts, t.isGroup = false) :
    (ts.map strip).takeWhile isIdent = (ts.takeWhile isIdent).map strip := by
  induction ts with
  | nil => rfl
  | cons t ts ih =>
    rw [List.forall_mem_cons] at h
    rw [List.map_cons, List.takeWhile_cons, List.takeWhile_cons, isIdent_strip h.1, ih h.2]
    split <;> rfl

theorem params_strip {ts : List Term} (h : ∀ t ∈ ts, t.isGroup = false) :
    params (ts.map strip) = (params ts).map strip := by
  rw [params, params, ← List.map_tail]
  exact takeWhile_isIdent_strip fun t ht => h t (List.mem_of_mem_tail ht)

theorem constructors_strip {ts : List Term} (h : ∀ t ∈ ts, t.isGroup = false) :
    constructors (ts.map strip) = (constructors ts).map strip := by
  rw [constructors, constructors, ← List.map_tail, List.filter_map]
  congr 1
  exact List.filter_congr fun t ht => isApp_strip (h t (List.mem_of_mem_tail ht))

/-- The text of a term does not show its groups. -/
theorem Solid.render_strip {t : Term} (h : t.Solid) : t.strip.render = t.render := by
  induction h with
  | ident n => rfl
  | @group t ht ih => rw [Term.strip, ih, render, ht.inside_eq]
  | @seq k xs hgroups hxs ih =>
    have helement : ∀ wrap : Term → Bool, (∀ x, wrap x.strip = wrap x) →
        (xs.map Term.strip).map (element wrap) = xs.map (element wrap) := by
      intro wrap hwrap
      rw [List.map_map]
      refine List.map_congr_left fun x hx => ?_
      simp only [Function.comp_apply, element, hwrap, ih x hx]
    cases k with
    | application =>
      rw [Term.strip, stripAll_eq_map, render_app, render_app, helement _ isCompound_strip]
    | arrow =>
      rw [Term.strip, stripAll_eq_map, render_arrow, render_arrow, helement _ isChain_strip]
    | entity =>
      cases xs with
      | nil => rfl
      | cons x xs =>
        -- Without groups among the elements, parameters and constructors are told apart as before.
        have hgroups := hgroups rfl
        have hshown : ∀ y ∈ x :: xs, y.strip.render = y.render := ih
        rw [List.forall_mem_cons] at hshown
        have hparams : (params (x :: xs)).map ((" " ++ ·.render) ∘ Term.strip)
            = (params (x :: xs)).map (" " ++ ·.render) :=
          List.map_congr_left fun y hy => by
            rw [Function.comp_apply, hshown.2 y ((List.takeWhile_sublist _).subset hy)]
        have hconstructors : (constructors (x :: xs)).map (render ∘ Term.strip)
            = (constructors (x :: xs)).map render :=
          List.map_congr_left fun y hy => by
            rw [Function.comp_apply, hshown.2 y (List.mem_filter.1 hy).1]
        rw [Term.strip, stripAll_eq_map, List.map_cons, render_entity, render_entity,
          ← List.map_cons, params_strip hgroups, constructors_strip hgroups, hshown.1,
          List.map_map, List.map_map, hparams, hconstructors, List.isEmpty_map]
  | rel ha hb iha ihb =>
    rw [Term.strip, render, render, ha.strip.side_eq, hb.strip.side_eq, ha.side_eq, hb.side_eq,
      iha, ihb]
  | builtin ha hb iha ihb =>
    rw [Term.strip, render, render, ha.strip.side_eq, hb.strip.side_eq, ha.side_eq, hb.side_eq,
      iha, ihb]
  | marker => rfl
  | builtinMarker => rfl

/-! ## Expressions -/

/-- The term is made of identifiers with certain names, groups, applications and arrows, each
    application and arrow with at least so many elements. -/
inductive Formed (names : String → Prop) (least : Nat) : Term → Prop where
  | ident {n : String} : names n → Formed names least (.ident n)
  | group {t : Term} : Formed names least t → Formed names least (.group t)
  | seq {k : Sequence} {xs : List Term} : k ≠ .entity → least ≤ xs.length →
      (∀ x ∈ xs, Formed names least x) → Formed names least (.seq k xs)

namespace Formed

variable {names : String → Prop} {least : Nat} {t : Term}

theorem solid (h : t.Formed names least) : t.Solid := by
  induction h with
  | ident _ => exact .ident _
  | group _ ih => exact .group ih
  | seq hk _ _ ih => exact .seq (fun hentity => absurd hentity hk) ih

theorem strip (h : t.Formed names least) : t.strip.Formed names least := by
  induction h with
  | ident hn => exact .ident hn
  | group _ ih => exact ih
  | @seq k xs hk hlength _ ih =>
    rw [Term.strip, stripAll_eq_map]
    refine .seq hk ?_ ?_
    · rw [List.length_map]
      exact hlength
    · simpa using ih

/-- Names may be replaced by other expressions. -/
theorem subst (h : t.Formed names least) {r : Term} (hr : r.Formed names least) (n : String) :
    (subst (.ident n) r t).Formed names least := by
  induction h with
  | @ident m hm =>
    rw [Term.subst]
    split
    · exact hr
    · exact .ident hm
  | group _ ih =>
    rw [Term.subst, if_neg (by simp)]
    exact .group ih
  | @seq k xs hk hlength _ ih =>
    rw [Term.subst, if_neg (by simp), substAll_eq_map]
    refine .seq hk ?_ ?_
    · rw [List.length_map]
      exact hlength
    · simpa using ih

end Formed

end Clausal.Term
