/-
  Clausal.Proofs.Parentheses

  What taking the groups off a term does to it. No group is left, at whatever depth, also inside
  builtin signatures; names are found and replaced as before; and the text stays, as long as no
  group stands directly in a type declaration. There a group hides an element: only what is an
  identifier or an application itself is shown as a parameter or as a constructor.

    * `Term.not_isGroup_of_within_strip`: no group is left;
    * `Term.occurs_strip`: names stand in the term as before;
    * `Term.Whole.solid`: where the text stays;
    * `Term.parentheses_carry_nothing`: all of it, with what `Term.strip_subst` says of replacing.
-/
import Clausal.Proofs.Substitution

namespace Clausal.Term

/-! ## Terms within terms -/

/-- The first term is the second one or stands in it, at whatever depth. -/
inductive Within : Term → Term → Prop where
  | self (t : Term) : Within t t
  | group {s t : Term} : Within s t → Within s (.group t)
  | seq {s x : Term} {k : Sequence} {xs : List Term} :
      x ∈ xs → Within s x → Within s (.seq k xs)
  | left {s a b : Term} {k : Relation} : Within s a → Within s (.rel k a b)
  | right {s a b : Term} {k : Relation} : Within s b → Within s (.rel k a b)
  | builtinLeft {s a b : Term} : Within s a → Within s (.builtin a b)
  | builtinRight {s a b : Term} : Within s b → Within s (.builtin a b)

section Within

variable {s : Term}

@[simp] theorem within_ident {n : String} : s.Within (.ident n) ↔ s = .ident n := by
  refine ⟨?_, fun h => h ▸ .self _⟩
  rintro ⟨⟩
  rfl

@[simp] theorem within_group {t : Term} :
    s.Within (.group t) ↔ s = .group t ∨ s.Within t := by
  constructor
  · rintro (_ | h)
    · exact .inl rfl
    · exact .inr h
  · rintro (rfl | h)
    · exact .self _
    · exact .group h

@[simp] theorem within_seq {k : Sequence} {xs : List Term} :
    s.Within (.seq k xs) ↔ s = .seq k xs ∨ ∃ x ∈ xs, s.Within x := by
  constructor
  · rintro (_ | _ | ⟨hx, h⟩)
    · exact .inl rfl
    · exact .inr ⟨_, hx, h⟩
  · rintro (rfl | ⟨x, hx, h⟩)
    · exact .self _
    · exact .seq hx h

@[simp] theorem within_rel {k : Relation} {a b : Term} :
    s.Within (.rel k a b) ↔ s = .rel k a b ∨ s.Within a ∨ s.Within b := by
  constructor
  · intro h
    cases h with
    | self => exact .inl rfl
    | left h => exact .inr (.inl h)
    | right h => exact .inr (.inr h)
  · rintro (rfl | h | h)
    · exact .self _
    · exact .left h
    · exact .right h

@[simp] theorem within_builtin {a b : Term} :
    s.Within (.builtin a b) ↔ s = .builtin a b ∨ s.Within a ∨ s.Within b := by
  constructor
  · intro h
    cases h with
    | self => exact .inl rfl
    | builtinLeft h => exact .inr (.inl h)
    | builtinRight h => exact .inr (.inr h)
  · rintro (rfl | h | h)
    · exact .self _
    · exact .builtinLeft h
    · exact .builtinRight h

end Within

/-- No group is left in a term whose groups were taken off. -/
theorem not_isGroup_of_within_strip {s t : Term} (h : s.Within t.strip) : s.isGroup = false := by
  induction t using inductionOn with
  | group t ih => exact ih h
  | seq k xs ih =>
    rw [strip, stripAll_eq_map, within_seq] at h
    rcases h with rfl | ⟨y, hy, hs⟩
    · rfl
    · obtain ⟨x, hx, rfl⟩ := List.mem_map.1 hy
      exact ih x hx hs
  | rel k a b iha ihb =>
    rcases within_rel.1 h with rfl | hs | hs
    · rfl
    · exact iha hs
    · exact ihb hs
  | builtin a b iha ihb =>
    rcases within_builtin.1 h with rfl | hs | hs
    · rfl
    · exact iha hs
    · exact ihb hs
  | _ =>
    cases h
    rfl

/-! ## Names -/

/-- A name stands in a term whether or not its groups are taken off. It is not looked for in builtin
    signatures, so that it does not matter what becomes of those. -/
theorem occurs_strip (n : String) (t : Term) :
    occurs (.ident n) t.strip = occurs (.ident n) t := by
  induction t using inductionOn with
  | group t ih => rw [strip, ih, occurs_group]
  | seq k xs ih =>
    rw [strip, stripAll_eq_map, occurs_seq, occurs_seq, List.any_map, Bool.eq_iff_iff,
      List.any_eq_true, List.any_eq_true]
    refine exists_congr fun x => and_congr_right fun hx => ?_
    rw [Function.comp_apply, ih x hx]
  | rel k a b iha ihb => rw [strip, occurs_rel, occurs_rel, iha, ihb]
  | builtin a b _ _ => rw [strip, occurs_builtin, occurs_builtin]
  | _ => rfl

/-! ## Text -/

/-- Where no term is missing and no type declaration has a group for an element, the text shows
    every term. -/
theorem Whole.solid {t : Term} (ht : t.Whole)
    (h : ∀ elems, (entity elems).Within t → ∀ x ∈ elems, x.isGroup = false) : t.Solid := by
  induction ht with
  | ident n => exact .ident n
  | group _ ih => exact .group (ih fun elems hin => h elems (.group hin))
  | @seq k xs _ ih =>
    -- The sequence may be a type declaration itself, besides holding others.
    refine .seq ?_ fun x hx => ih x hx fun elems hin => h elems (.seq hx hin)
    rintro rfl
    exact h xs (.self _)
  | rel _ _ iha ihb =>
    exact .rel (iha fun elems hin => h elems (.left hin))
      (ihb fun elems hin => h elems (.right hin))
  | builtin _ _ iha ihb =>
    exact .builtin (iha fun elems hin => h elems (.builtinLeft hin))
      (ihb fun elems hin => h elems (.builtinRight hin))
  | marker => exact .marker
  | builtinMarker => exact .builtinMarker

/-- **Parentheses carry no meaning.** Taking the groups off a term commutes with putting another
    term in the place of a name, leaves no group at any depth, so that doing it twice is doing it
    once, and leaves the same names in the term. If no term is missing and no group stands directly
    in a type declaration, the term has the same text without its groups. -/
theorem parentheses_carry_nothing (name : String) (repl t : Term) :
    (subst (.ident name) repl t).strip = subst (.ident name) repl.strip t.strip ∧
      (∀ s : Term, s.Within t.strip → s.isGroup = false) ∧
      t.strip.strip = t.strip ∧
      occurs (.ident name) t.strip = occurs (.ident name) t ∧
      (t.Whole → (∀ elems, (entity elems).Within t → ∀ x ∈ elems, x.isGroup = false) →
        t.strip.render = t.render) :=
  ⟨strip_subst name repl t, fun _ h => not_isGroup_of_within_strip h, strip_strip t,
    occurs_strip name t, fun ht h => (ht.solid h).render_strip⟩

/-- A builtin signature and a call, both with parentheses inside. -/
def bracketed : Term :=
  .app [.builtin (.ident "g") (.group (.ident "X")),
    .group (.app [.ident "f", .group (.group (.ident "X"))])]

/-- The variable is replaced in the call and not in the signature, and the groups are taken off
    both. The text has only the parentheses that it needs. -/
theorem parentheses_carry_nothing_builtin :
    bracketed.Whole ∧
      (∀ elems, (entity elems).Within bracketed → ∀ x ∈ elems, x.isGroup = false) ∧
      (subst (.ident "X") (.group (.ident "y")) bracketed).strip
        = .app [.builtin (.ident "g") (.ident "X"), .app [.ident "f", .ident "y"]] ∧
      bracketed.strip.render = bracketed.render ∧
      bracketed.render = "builtin g : X (f X)" := by
  obtain ⟨hsubst, -, -, -, htext⟩ :=
    parentheses_carry_nothing "X" (.group (.ident "y")) bracketed
  have hwhole : bracketed.Whole := by
    refine .seq ?_
    simp only [List.forall_mem_cons, List.not_mem_nil, false_implies, implies_true, and_true]
    exact ⟨.builtin (.ident _) (.group (.ident _)), .group (.seq (by simp [Whole.group]))⟩
  have hentity : ∀ elems, (entity elems).Within bracketed → ∀ x ∈ elems, x.isGroup = false := by
    simp [bracketed]
  refine ⟨hwhole, hentity, ?_, htext hwhole hentity, by decide +kernel⟩
  rw [hsubst]
  decide

/-- A group in a type declaration is neither a parameter nor a constructor, so that it does not
    show. Without its groups the declaration has a parameter more. -/
example : (entity [ident "t", group (ident "a")]).render = "decltype t" ∧
    (entity [ident "t", group (ident "a")]).strip.render = "decltype t a" := by
  decide +kernel

end Clausal.Term
