/-
  Clausal.Proofs.Encoding

  The bytes of a term tell the term. They can be taken off the front of any longer text of bytes in
  one way only, because everything that is written says where it ends: a number by the top bits of
  its bytes (`varint_append_inj`), a name and a sequence by their length, which comes first, and any
  other term by its tag. So two terms are given to the hash as the same bytes exactly if they are the
  same, provided that none has a term missing; a missing term has no bytes at all. Names are bytes
  here, whether they are texts or not.

    * `RawTerm.Whole.delimited`: where a term ends is never in doubt;
    * `RawTerm.encodeDigests_inj`: nor where a fingerprint ends, all of them being equally long;
    * `RawTerm.encoding_unambiguous`: what this means for the input of the hash.
-/
import Clausal.Proofs.Strip
import Clausal.Term.Digest

namespace Clausal

/-! ## Numbers -/

theorem varint_of_lt {n : Nat} (h : n < 128) : varint n = [UInt8.ofNat n] := by
  rw [varint, if_pos h]

theorem varint_of_le {n : Nat} (h : 128 ≤ n) :
    varint n = UInt8.ofNat (n % 128 + 128) :: varint (n / 128) := by
  rw [varint, if_neg (Nat.not_lt.2 h)]

/-- A number is read off the front of some bytes in one way only. -/
theorem varint_append_inj {m n : Nat} {r s : List UInt8} (h : varint m ++ r = varint n ++ s) :
    m = n ∧ r = s := by
  have hcons : ∀ {a b : Nat} {xs ys : List UInt8}, a < 256 → b < 256 →
      UInt8.ofNat a :: xs = UInt8.ofNat b :: ys → a = b ∧ xs = ys := by
    intro a b xs ys ha hb heq
    obtain ⟨hbyte, hrest⟩ := List.cons.inj heq
    have hnat := congrArg UInt8.toNat hbyte
    rw [UInt8.toNat_ofNat_of_lt' ha, UInt8.toNat_ofNat_of_lt' hb] at hnat
    exact ⟨hnat, hrest⟩
  induction m using Nat.strongRecOn generalizing n with
  | ind m ih =>
    -- Whether a byte is the last one shows in its top bit.
    rcases Nat.lt_or_ge m 128 with hm | hm <;> rcases Nat.lt_or_ge n 128 with hn | hn
    · rw [varint_of_lt hm, varint_of_lt hn] at h
      exact hcons (by omega) (by omega) h
    · rw [varint_of_lt hm, varint_of_le hn] at h
      have hfirst := hcons (by omega) (by omega) h
      omega
    · rw [varint_of_le hm, varint_of_lt hn] at h
      have hfirst := hcons (by omega) (by omega) h
      omega
    · rw [varint_of_le hm, varint_of_le hn] at h
      obtain ⟨hlow, hrest⟩ := hcons (by omega) (by omega) h
      obtain ⟨hhigh, hrs⟩ := ih (m / 128) (by omega) hrest
      exact ⟨by omega, hrs⟩

/-! ## Lists -/

/-- What is written one after the other is taken apart again, if each of the things written can be
    and their number is known. -/
theorem flatMap_append_inj {α : Type} {write : α → List UInt8} {xs ys : List α}
    (hlength : xs.length = ys.length)
    (hwrite : ∀ x ∈ xs, ∀ y ∈ ys, ∀ r s, write x ++ r = write y ++ s → x = y ∧ r = s)
    {r s : List UInt8} (h : xs.flatMap write ++ r = ys.flatMap write ++ s) : xs = ys ∧ r = s := by
  induction xs generalizing ys with
  | nil =>
    obtain rfl := List.length_eq_zero_iff.1 hlength.symm
    exact ⟨rfl, h⟩
  | cons x xs ih =>
    obtain ⟨y, ys, rfl⟩ := List.exists_cons_of_length_eq_add_one hlength.symm
    rw [List.flatMap_cons, List.flatMap_cons, List.append_assoc, List.append_assoc] at h
    obtain ⟨rfl, hrest⟩ := hwrite x List.mem_cons_self y List.mem_cons_self _ _ h
    obtain ⟨rfl, hrs⟩ := ih (Nat.succ.inj hlength)
      (fun x hx y hy => hwrite x (List.mem_cons_of_mem _ hx) y (List.mem_cons_of_mem _ hy)) hrest
    exact ⟨rfl, hrs⟩

/-- Bytes with their number first are read off the front of some bytes in one way only. -/
theorem encodeBytes_append_inj {m n r s : List UInt8}
    (h : encodeBytes m ++ r = encodeBytes n ++ s) : m = n ∧ r = s := by
  rw [encodeBytes, encodeBytes, List.append_assoc, List.append_assoc] at h
  obtain ⟨hlength, hrest⟩ := varint_append_inj h
  exact List.append_inj hrest hlength

namespace RawTerm

/-! ## Terms -/

/-- No term is missing, at whatever depth. -/
inductive Whole : RawTerm → Prop where
  | ident (n : List UInt8) : Whole (.ident n)
  | group {t : RawTerm} : Whole t → Whole (.group t)
  | seq {k : Term.Sequence} {xs : List RawTerm} : (∀ x ∈ xs, Whole x) → Whole (.seq k xs)
  | rel {k : Term.Relation} {a b : RawTerm} : Whole a → Whole b → Whole (.rel k a b)
  | builtin {a b : RawTerm} : Whole a → Whole b → Whole (.builtin a b)
  | marker : Whole .marker
  | builtinMarker : Whole .builtinMarker

/-- A term with its content taken out: what its tag says of it. -/
def node : RawTerm → RawTerm
  | .ident _ => .ident []
  | .group _ => .group .hole
  | .seq k _ => .seq k []
  | .rel k _ _ => .rel k .hole .hole
  | .builtin _ _ => .builtin .hole .hole
  | .marker => .marker
  | .builtinMarker => .builtinMarker
  | .hole => .hole

/-- Each kind of node has a tag of its own. -/
theorem node_eq_of_head? {a b : RawTerm} (h : a.encode.head? = b.encode.head?) : a.node = b.node := by
  cases a with
  | seq j xs =>
    cases j <;> cases b with
    | seq k ys => cases k <;> first | rfl | cases h
    | rel k c d => cases k <;> cases h
    | _ => cases h
  | rel j c d =>
    cases j <;> cases b with
    | seq k ys => cases k <;> cases h
    | rel k c d => cases k <;> first | rfl | cases h
    | _ => cases h
  | _ =>
    cases b with
    | seq k ys => cases k <;> cases h
    | rel k c d => cases k <;> cases h
    | _ => first | rfl | cases h

theorem Whole.encode_ne_nil {t : RawTerm} (h : t.Whole) : t.encode ≠ [] := by
  cases h <;> exact List.cons_ne_nil _ _

theorem Whole.node_eq {a b : RawTerm} (ha : a.Whole) (hb : b.Whole) {r s : List UInt8}
    (h : a.encode ++ r = b.encode ++ s) : a.node = b.node := by
  obtain ⟨tag, more, hmore⟩ := List.exists_cons_of_ne_nil ha.encode_ne_nil
  obtain ⟨tag', more', hmore'⟩ := List.exists_cons_of_ne_nil hb.encode_ne_nil
  apply node_eq_of_head?
  rw [hmore, hmore'] at h ⊢
  exact congrArg some (List.cons.inj h).1

/-- No bytes can be cut into those of the term and a rest, and into those of another one and
    another rest. -/
def Delimited (t : RawTerm) : Prop :=
  ∀ {u : RawTerm}, u.Whole → ∀ {r s : List UInt8}, t.encode ++ r = u.encode ++ s → t = u ∧ r = s

theorem Delimited.pair {a b c d : RawTerm} (ha : a.Delimited) (hb : b.Delimited) (hc : c.Whole)
    (hd : d.Whole) {r s : List UInt8}
    (h : a.encode ++ b.encode ++ r = c.encode ++ d.encode ++ s) : a = c ∧ b = d ∧ r = s := by
  rw [List.append_assoc, List.append_assoc] at h
  obtain ⟨hac, hrest⟩ := ha hc h
  exact ⟨hac, hb hd hrest⟩

/-- The bytes of a term determine it, whatever comes behind them. -/
theorem Whole.delimited {t : RawTerm} (ht : t.Whole) : t.Delimited := by
  induction ht with
  | ident n =>
    intro u hu r s h
    have hnode := (Whole.ident n).node_eq hu h
    cases hu with
    | ident m =>
      obtain ⟨rfl, hrs⟩ := encodeBytes_append_inj (List.cons.inj h).2
      exact ⟨rfl, hrs⟩
    | _ => cases hnode
  | group ht ih =>
    intro u hu r s h
    have hnode := (Whole.group ht).node_eq hu h
    cases hu with
    | group hinner =>
      obtain ⟨rfl, hrs⟩ := ih hinner (List.cons.inj h).2
      exact ⟨rfl, hrs⟩
    | _ => cases hnode
  | @seq k xs hxs ih =>
    intro u hu r s h
    have hnode := (Whole.seq hxs).node_eq hu h
    cases hu with
    | @seq _ ys hys =>
      cases hnode
      rw [encode, encode, encodeAll_eq_flatMap, encodeAll_eq_flatMap, List.cons_append,
        List.cons_append, List.append_assoc, List.append_assoc] at h
      obtain ⟨hlength, helems⟩ := varint_append_inj (List.cons.inj h).2
      obtain ⟨rfl, hrs⟩ := flatMap_append_inj hlength
        (fun x hx y hy _ _ hxy => ih x hx (hys y hy) hxy) helems
      exact ⟨rfl, hrs⟩
    | _ => cases hnode
  | rel ha hb iha ihb =>
    intro u hu r s h
    have hnode := (Whole.rel ha hb).node_eq hu h
    cases hu with
    | rel hc hd =>
      cases hnode
      obtain ⟨rfl, rfl, hrs⟩ := iha.pair ihb hc hd (List.cons.inj h).2
      exact ⟨rfl, hrs⟩
    | _ => cases hnode
  | builtin ha hb iha ihb =>
    intro u hu r s h
    have hnode := (Whole.builtin ha hb).node_eq hu h
    cases hu with
    | builtin hc hd =>
      -- Two tags come first, that of the builtin signature and that of the signature.
      obtain ⟨rfl, rfl, hrs⟩ := iha.pair ihb hc hd (List.cons.inj (List.cons.inj h).2).2
      exact ⟨rfl, hrs⟩
    | _ => cases hnode
  | marker =>
    intro u hu r s h
    have hnode := Whole.marker.node_eq hu h
    cases hu with
    | marker => exact ⟨rfl, (List.cons.inj h).2⟩
    | _ => cases hnode
  | builtinMarker =>
    intro u hu r s h
    have hnode := Whole.builtinMarker.node_eq hu h
    cases hu with
    | builtinMarker => exact ⟨rfl, (List.cons.inj h).2⟩
    | _ => cases hnode

theorem Whole.encode_inj {a b : RawTerm} (ha : a.Whole) (hb : b.Whole) (h : a.encode = b.encode) :
    a = b :=
  (ha.delimited hb (congrArg (· ++ []) h)).1

end RawTerm

/-! ## Fingerprints -/

theorem Blake3.length_hash (bytes : List UInt8) : (Blake3.hash bytes).length = 32 := by
  have hwords : ∀ words : Vector UInt32 8,
      (words.toList.flatMap Blake3.wordBytes).length = 32 := by
    intro words
    simp [List.length_flatMap, Blake3.wordBytes, List.map_const']
  exact hwords _

namespace RawTerm

theorem length_fingerprint (t : RawTerm) : t.fingerprint.length = 32 := Blake3.length_hash _

theorem length_encodeDigests (ts : List RawTerm) :
    (encodeDigests ts).length = 32 * ts.length := by
  simp [encodeDigests, List.length_flatMap, length_fingerprint, List.map_const', Nat.mul_comm]

/-- Fingerprints one after the other are told apart, as far as each of them tells its term. -/
theorem encodeDigests_inj {ss ts : List RawTerm}
    (hinj : ∀ a ∈ ss, ∀ b ∈ ts, a.fingerprint = b.fingerprint → a = b)
    (h : encodeDigests ss = encodeDigests ts) : ss = ts := by
  have hlength : ss.length = ts.length := by
    have hbytes := congrArg List.length h
    rw [length_encodeDigests, length_encodeDigests] at hbytes
    omega
  refine (flatMap_append_inj hlength (fun a ha b hb r s hab => ?_) (congrArg (· ++ []) h)).1
  obtain ⟨hfirst, hrest⟩ := List.append_inj hab
    ((length_fingerprint a).trans (length_fingerprint b).symm)
  exact ⟨hinj a ha b hb hfirst, hrest⟩

end RawTerm

/-! ## Terms and their raw terms -/

/-- The raw term of a whole term is whole. -/
theorem Term.Whole.raw {t : Term} (ht : t.Whole) : t.raw.Whole := by
  induction ht with
  | ident n => exact .ident _
  | group _ ih => exact .group ih
  | seq _ ih =>
    rw [Term.raw, Term.rawAll_eq_map]
    exact .seq (List.forall_mem_map.2 ih)
  | rel _ _ iha ihb => exact .rel iha ihb
  | builtin _ _ iha ihb => exact .builtin iha ihb
  | marker => exact .marker
  | builtinMarker => exact .builtinMarker

namespace RawTerm

/-- **The encoding is injective and free of prefixes.** Let names be any bytes. Of terms in which
    none is missing, two whose bytes begin some bytes are the same and leave the same rest, and terms
    that are the same have the same bytes. So they are the same input to the hash exactly if they are
    the same terms; and two lists of them, as far as fingerprints tell their terms apart, exactly if
    they are equally long and agree place by place.

    All this is true of terms whose names are texts: their bytes are those of their raw terms, which
    are whole if they are, and the same exactly if they are. -/
theorem encoding_unambiguous :
    (∀ a b : RawTerm, a.Whole → b.Whole → ∀ r s : List UInt8, a.encode ++ r = b.encode ++ s →
      a.same b = true ∧ r = s) ∧
    (∀ a b : RawTerm, a.same b = true → a.encode = b.encode) ∧
    (∀ a b : RawTerm, a.Whole → b.Whole → (a.encode = b.encode ↔ a.same b = true)) ∧
    (∀ ss ts : List RawTerm,
      (∀ a ∈ ss ++ ts, ∀ b ∈ ss ++ ts, a.fingerprint = b.fingerprint → a.same b = true) →
      (encodeDigests ss = encodeDigests ts ↔ sameAll ss ts = true)) ∧
    ∀ a b : Term, a.encode = a.raw.encode ∧ (a.Whole → a.raw.Whole) ∧
      a.raw.same b.raw = a.same b := by
  refine ⟨fun a b ha hb r s h => ?_, fun a b h => ?_, fun a b ha hb => ?_,
    fun ss ts hinj => ?_, fun a b => ⟨rfl, Term.Whole.raw, Term.same_raw a b⟩⟩
  · obtain ⟨hab, hrs⟩ := ha.delimited hb h
    exact ⟨same_iff.2 hab, hrs⟩
  · rw [same_iff.1 h]
  · rw [same_iff]
    exact ⟨ha.encode_inj hb, congrArg encode⟩
  · rw [sameAll_iff]
    refine ⟨fun h => encodeDigests_inj (fun a ha b hb hab => ?_) h, fun h => by rw [h]⟩
    exact same_iff.1 (hinj a (List.mem_append_left _ ha) b (List.mem_append_right _ hb) hab)

/-- A name may be no text at all, or look like tags and lengths; a name in parentheses is told from a
    name applied to nothing, and the order of a list shows in its digest. -/
theorem encoding_unambiguous_lookalikes :
    ((ident [0xFF, 1, 1]).Whole ∧
      (ident [0xFF, 1, 1]).encode ++ [1] = (ident [0xFF, 1, 1]).encode ++ [1] ∧
      (ident [0xFF, 1, 1]).same (ident [0xFF, 1, 1]) = true) ∧
    ((group (ident [0xFF])).Whole ∧ (app [ident [0xFF]]).Whole ∧
      (group (ident [0xFF])).encode ≠ (app [ident [0xFF]]).encode) ∧
    (∀ a ∈ [ident [0xFF], ident [1]] ++ [ident [1], ident [0xFF]],
        ∀ b ∈ [ident [0xFF], ident [1]] ++ [ident [1], ident [0xFF]],
          a.fingerprint = b.fingerprint → a.same b = true) ∧
      encodeDigests [ident [0xFF], ident [1]] ≠ encodeDigests [ident [1], ident [0xFF]] ∧
    (Term.ident "f").Whole ∧ (Term.ident "f").raw.Whole := by
  obtain ⟨hcut, -, hinput, hlists, hterms⟩ := encoding_unambiguous
  have hname : (ident [0xFF, 1, 1]).Whole := .ident _
  have hgroup : (group (ident [0xFF])).Whole := .group (.ident _)
  have happ : (app [ident [0xFF]]).Whole := .seq (by simpa using Whole.ident _)
  have hinj : ∀ a ∈ [ident [0xFF], ident [1]] ++ [ident [1], ident [0xFF]],
      ∀ b ∈ [ident [0xFF], ident [1]] ++ [ident [1], ident [0xFF]],
        a.fingerprint = b.fingerprint → a.same b = true := by
    have hne : (ident [0xFF]).fingerprint ≠ (ident [1]).fingerprint := by decide +kernel
    simp [hne, hne.symm, same]
  have hterm : (Term.ident "f").Whole := .ident _
  refine ⟨⟨hname, rfl, (hcut _ _ hname hname [1] [1] rfl).1⟩, ⟨hgroup, happ, ?_⟩, hinj, ?_,
    hterm, (hterms _ (.ident "f")).2.1 hterm⟩
  · rw [ne_eq, hinput _ _ hgroup happ]
    decide
  · rw [ne_eq, hlists _ _ hinj]
    decide

end RawTerm

end Clausal
