/-
  Clausal.Proofs.Bytes

  Text and the bytes it is read from. Bytes begin with a character exactly if they begin with its
  UTF-8 encoding (`Text.charAt?_eq_some_iff`), so the pieces of a text spell its bytes again, and
  where two pieces meet the bytes can be cut: each side is read as the pieces that stand there
  (`Text.Decoded.append`).

  A byte below 0x80 is a character of its own and part of no other one. So what is asked about such
  bytes (blanks, line feeds, braces) can be asked about pieces (`Text.Decoded.split`).
-/
import Clausal.Text.Piece
import Mathlib.Data.List.Basic
import Mathlib.Data.Nat.ModEq
import Mathlib.Tactic.SplitIfs

namespace Clausal

namespace Text

/-! ## Encodings -/

/-- The last `k` groups of six bits of `n`, each as a continuation byte. -/
def sextets (n : Nat) : Nat → List Nat
  | 0 => []
  | k + 1 => (0x80 + n / 64 ^ k % 64) :: sextets n k

theorem trailing_eq_some_iff {k n m : Nat} {bs : List UInt8} :
    trailing k n bs = some m ↔ m / 64 ^ k = n ∧ sextets m k <+: bs.map UInt8.toNat := by
  induction k generalizing n bs with
  | zero => simp [trailing, sextets, eq_comm]
  | succ k ih =>
    have hdiv : m / 64 ^ (k + 1) = m / 64 ^ k / 64 := by
      rw [Nat.pow_succ, Nat.div_div_eq_div_mul]
    cases bs with
    | nil => simp [trailing, sextets]
    | cons b rest =>
      simp only [trailing, Bool.and_eq_true, decide_eq_true_eq, UInt8.le_iff_toNat_le,
        UInt8.lt_iff_toNat_lt, UInt8.reduceToNat, sextets, List.map_cons, List.cons_prefix_cons,
        hdiv]
      split
      · rename_i hb
        -- The byte is the group of six bits that comes before the `k` last ones.
        rw [ih, ← and_assoc]
        refine and_congr_left fun _ => ?_
        omega
      · rename_i hb
        refine iff_of_false (by simp) fun h => ?_
        omega

theorem scalar?_eq_some_iff {least n : Nat} {c : Char} :
    scalar? least n = some c ↔ c.toNat = n ∧ least ≤ n := by
  by_cases hvalid : n.isValidChar
  · have hnumber : (Char.ofNatAux n hvalid).toNat = n := rfl
    rw [scalar?, dif_pos hvalid, Option.ite_none_right_eq_some, Option.some_inj, ← Char.toNat_inj,
      hnumber, eq_comm (a := n), and_comm]
  · rw [scalar?, dif_neg hvalid]
    refine iff_of_false nofun fun h => hvalid ?_
    exact h.1 ▸ c.valid

theorem toNat_lt (c : Char) : c.toNat < 0x110000 := by
  have hvalid : c.toNat < 0xd800 ∨ 0xdfff < c.toNat ∧ c.toNat < 0x110000 := c.valid
  omega

/-- A character's bytes as numbers: the number of the character in groups of six bits. -/
theorem toNat_utf8EncodeChar (c : Char) :
    (String.utf8EncodeChar c).map UInt8.toNat =
      if c.toNat ≤ 0x7F then [c.toNat]
      else if c.toNat ≤ 0x7FF then (0xC0 + c.toNat / 64 ^ 1) :: sextets c.toNat 1
      else if c.toNat ≤ 0xFFFF then (0xE0 + c.toNat / 64 ^ 2) :: sextets c.toNat 2
      else (0xF0 + c.toNat / 64 ^ 3) :: sextets c.toNat 3 := by
  have hlt := toNat_lt c
  simp only [String.utf8EncodeChar, Char.toNat] at hlt ⊢
  generalize c.val.toNat = v at hlt ⊢
  -- Both sides make the same tests, so only equations between numbers are left.
  split_ifs
  all_goals
    simp only [List.map_cons, List.map_nil, UInt8.toNat_ofNat', sextets, List.cons.injEq, and_true]
    omega

/-- Bytes begin with a character exactly if they begin with its encoding. -/
theorem charAt?_eq_some_iff {bs : List UInt8} {c : Char} :
    charAt? bs = some c ↔ String.utf8EncodeChar c <+: bs := by
  rw [← List.prefix_map_iff_of_injective (fun _ _ h => UInt8.toNat_inj.1 h), toNat_utf8EncodeChar]
  have hlt := toNat_lt c
  cases bs with
  | nil =>
    simp only [charAt?, List.map_nil, List.prefix_nil]
    split_ifs <;> simp
  | cons a rest =>
    have hone (ha : a.toNat < 0x80) : some (Char.ofNat a.toNat) = some c ↔ c.toNat = a.toNat := by
      have hvalid : a.toNat.isValidChar := .inl (by omega)
      have hnumber : (Char.ofNat a.toNat).toNat = a.toNat := by
        rw [Char.ofNat, dif_pos hvalid]
        rfl
      rw [Option.some_inj, ← Char.toNat_inj, hnumber, eq_comm]
    have hmore (k n least : Nat) : (trailing k n rest).bind (scalar? least) = some c ↔
        c.toNat / 64 ^ k = n ∧ sextets c.toNat k <+: rest.map UInt8.toNat ∧ least ≤ c.toNat := by
      simp only [Option.bind_eq_some_iff, trailing_eq_some_iff, scalar?_eq_some_iff]
      constructor
      · rintro ⟨m, ⟨hm, hrest⟩, rfl, hleast⟩
        exact ⟨hm, hrest, hleast⟩
      · rintro ⟨hm, hrest, hleast⟩
        exact ⟨_, ⟨hm, hrest⟩, rfl, hleast⟩
    -- The first byte tells how many there are.
    simp only [charAt?, UInt8.lt_iff_toNat_lt, UInt8.reduceToNat, List.map_cons]
    split_ifs <;> simp only [List.cons_prefix_cons, hmore] <;> grind

end Text

namespace Piece

theorem length_bytes (p : Piece) : p.bytes.length = p.width := by
  cases p with
  | char c => exact String.length_utf8EncodeChar c
  | stray b => rfl

theorem width_pos (p : Piece) : 0 < p.width := by
  cases p with
  | char c => exact c.utf8Size_pos
  | stray b => exact Nat.one_pos

/-- A piece is what is read where its bytes stand before others. A byte is stray only if no
    character begins with it there. -/
def Before (bs : List UInt8) : Piece → Prop
  | .char _ => True
  | .stray b => Text.charAt? (b :: bs) = none

theorem Before.append_left {p : Piece} {bs bs' : List UInt8} (h : p.Before (bs ++ bs')) :
    p.Before bs := by
  cases p with
  | char c => trivial
  | stray b =>
    refine Option.eq_none_iff_forall_ne_some.2 fun c hc => ?_
    have hlonger : String.utf8EncodeChar c <+: b :: (bs ++ bs') :=
      (Text.charAt?_eq_some_iff.1 hc).trans (List.prefix_append (b :: bs) bs')
    have hsome := Text.charAt?_eq_some_iff.2 hlonger
    rw [show Text.charAt? (b :: (bs ++ bs')) = none from h] at hsome
    cases hsome

/-- A low byte is the whole of the piece that it is in. -/
theorem eq_of_low {p : Piece} {bs : List UInt8} (h : p.Before bs) {x : UInt8} (hx : x < 0x80)
    (hmem : x ∈ p.bytes) : p = .char (Char.ofNat x.toNat) ∧ p.bytes = [x] := by
  cases p with
  | stray b =>
    obtain rfl := List.mem_singleton.1 hmem
    rw [Before, Text.charAt?, if_pos hx] at h
    cases h
  | char c =>
    have hlow : x.toNat < 0x80 := hx
    have hnumber : x.toNat ∈ (String.utf8EncodeChar c).map UInt8.toNat := List.mem_map_of_mem hmem
    have hbytes := Text.toNat_utf8EncodeChar c
    rw [hbytes] at hnumber
    split_ifs at hnumber with hone
    · rw [if_pos hone] at hbytes
      have hc : c.toNat = x.toNat := (List.mem_singleton.1 hnumber).symm
      refine ⟨by rw [← hc, Char.ofNat_toNat], ?_⟩
      rw [hc, ← List.map_singleton (f := UInt8.toNat)] at hbytes
      exact List.map_injective_iff.2 (fun _ _ h => UInt8.toNat_inj.1 h) hbytes
    -- In a longer encoding every byte is at least 0x80.
    all_goals
      simp only [Text.sextets, List.mem_cons, List.not_mem_nil, or_false] at hnumber
      omega

/-- A low byte never goes on with a character, so a piece is read before it as at the end. -/
theorem Before.append_low {p : Piece} {bs bs' : List UInt8} (h : p.Before bs)
    (hlow : ∀ x ∈ bs'.head?, x < 0x80) : p.Before (bs ++ bs') := by
  cases p with
  | char c => trivial
  | stray b =>
    refine Option.eq_none_iff_forall_ne_some.2 fun c hc => ?_
    have hnot : ¬ String.utf8EncodeChar c <+: b :: bs := by
      intro hprefix
      rw [← Text.charAt?_eq_some_iff, show Text.charAt? (b :: bs) = none from h] at hprefix
      cases hprefix
    obtain ⟨behind, hbehind⟩ := Text.charAt?_eq_some_iff.1 hc
    rw [← List.cons_append, List.append_eq_append_iff] at hbehind
    rcases hbehind with ⟨rest, hrest, -⟩ | ⟨more, hmore, hbs'⟩
    · exact hnot ⟨rest, hrest.symm⟩
    · cases more with
      | nil => exact hnot ⟨[], by rw [hmore, List.append_nil, List.append_nil]⟩
      | cons x more =>
        -- The encoding goes on with the low byte, but then it would be nothing else.
        have hmem : x ∈ Piece.bytes (.char c) := by
          show x ∈ String.utf8EncodeChar c
          simp [hmore]
        have hx : x < 0x80 := hlow x (by rw [hbs', List.cons_append, List.head?_cons]; rfl)
        have hone : String.utf8EncodeChar c = [x] :=
          (eq_of_low (show Before [] (.char c) from trivial) hx hmem).2
        have hlength := congrArg List.length (hmore.symm.trans hone)
        simp at hlength

end Piece

namespace Text

/-! ## Pieces and bytes -/

@[simp] theorem toBytes_nil : toBytes [] = [] := rfl

@[simp] theorem toBytes_cons (p : Piece) (t : Text) : toBytes (p :: t) = p.bytes ++ toBytes t := rfl

@[simp] theorem toBytes_append (t u : Text) : toBytes (t ++ u) = toBytes t ++ toBytes u :=
  List.flatMap_append

theorem decodeFrom_eq (k : Nat) (bs : List UInt8) : decodeFrom k bs = ofBytes (bs.drop k) := by
  induction bs generalizing k with
  | nil => simp [decodeFrom, ofBytes]
  | cons b bs ih =>
    cases k with
    | zero => rfl
    | succ k => exact ih k

theorem ofBytes_append {p : Piece} {bs : List UInt8} (h : p.Before bs) :
    ofBytes (p.bytes ++ bs) = p :: ofBytes bs := by
  cases p with
  | stray b =>
    have hnone : charAt? (b :: bs) = none := h
    simp only [Piece.bytes, List.singleton_append, ofBytes, decodeFrom, hnone]
  | char c =>
    have hchar : charAt? (String.utf8EncodeChar c ++ bs) = some c :=
      charAt?_eq_some_iff.2 (List.prefix_append _ _)
    have hlength := String.length_utf8EncodeChar c
    rw [Piece.bytes]
    cases hbytes : String.utf8EncodeChar c with
    | nil =>
      rw [hbytes] at hlength
      exact absurd hlength (Nat.ne_of_lt c.utf8Size_pos)
    | cons b more =>
      rw [hbytes] at hchar hlength
      rw [List.cons_append] at hchar ⊢
      rw [ofBytes, decodeFrom]
      simp only [hchar]
      rw [decodeFrom_eq, ← hlength, List.length_cons, Nat.add_sub_cancel, List.drop_left]

/-- Whatever the bytes are, they begin with a piece. -/
theorem exists_before (b : UInt8) (rest : List UInt8) :
    ∃ p bs, b :: rest = Piece.bytes p ++ bs ∧ p.Before bs := by
  cases hchar : charAt? (b :: rest) with
  | none => exact ⟨.stray b, rest, rfl, hchar⟩
  | some c =>
    obtain ⟨bs, hbs⟩ := charAt?_eq_some_iff.1 hchar
    exact ⟨.char c, bs, hbs.symm, trivial⟩

/-- Every piece of a text is what is read where its bytes stand. -/
def Decoded : Text → Prop
  | [] => True
  | p :: t => p.Before (toBytes t) ∧ Decoded t

theorem Decoded.ofBytes_toBytes {t : Text} (h : Decoded t) : ofBytes t.toBytes = t := by
  induction t with
  | nil => rfl
  | cons p t ih => rw [toBytes_cons, ofBytes_append h.1, ih h.2]

theorem exists_decoded (bs : List UInt8) : ∃ t, Decoded t ∧ toBytes t = bs := by
  induction hn : bs.length using Nat.strongRecOn generalizing bs with
  | _ n ih =>
    cases bs with
    | nil => exact ⟨[], trivial, rfl⟩
    | cons b rest =>
      obtain ⟨p, bs, hbytes, hp⟩ := exists_before b rest
      -- A piece takes at least one byte, so less is left to be read.
      have hlt : bs.length < n := by
        have hwidth := p.width_pos
        rw [← hn, hbytes, List.length_append, p.length_bytes]
        omega
      obtain ⟨t, ht, htbytes⟩ := ih bs.length hlt bs rfl
      refine ⟨p :: t, ⟨?_, ht⟩, ?_⟩
      · rwa [htbytes]
      · rw [toBytes_cons, htbytes, hbytes]

theorem decoded_ofBytes (bs : List UInt8) : Decoded (ofBytes bs) := by
  obtain ⟨t, ht, rfl⟩ := exists_decoded bs
  rwa [ht.ofBytes_toBytes]

@[simp] theorem toBytes_ofBytes (bs : List UInt8) : (ofBytes bs).toBytes = bs := by
  obtain ⟨t, ht, rfl⟩ := exists_decoded bs
  rw [ht.ofBytes_toBytes]

/-- Where two pieces meet, the bytes can be cut. -/
theorem Decoded.append {t u : Text} (h : Decoded (t ++ u)) : Decoded t ∧ Decoded u := by
  induction t with
  | nil => exact ⟨trivial, h⟩
  | cons p t ih =>
    obtain ⟨ht, hu⟩ := ih h.2
    have hp : p.Before (toBytes t ++ u.toBytes) := toBytes_append t u ▸ h.1
    exact ⟨⟨hp.append_left, ht⟩, hu⟩

/-- Before a low byte the bytes can be cut as well. -/
theorem ofBytes_append_low (bs : List UInt8) {bs' : List UInt8} (hlow : ∀ x ∈ bs'.head?, x < 0x80) :
    ofBytes (bs ++ bs') = ofBytes bs ++ ofBytes bs' := by
  have hjoin (t : Text) (ht : Decoded t) : Decoded (t ++ ofBytes bs') := by
    induction t with
    | nil => exact decoded_ofBytes bs'
    | cons p t ih =>
      have hp := ht.1.append_low hlow
      rw [← toBytes_ofBytes bs', ← toBytes_append] at hp
      exact ⟨hp, ih ht.2⟩
  have hread := (hjoin (ofBytes bs) (decoded_ofBytes bs)).ofBytes_toBytes
  rwa [toBytes_append, toBytes_ofBytes, toBytes_ofBytes] at hread

/-- A low byte is a character of its own. -/
theorem ofBytes_cons_low {x : UInt8} (hx : x < 0x80) (bs : List UInt8) :
    ofBytes (x :: bs) = .char (Char.ofNat x.toNat) :: ofBytes bs := by
  obtain ⟨p, bs', hbytes, hp⟩ := exists_before x bs
  have hmem : x ∈ p.bytes := by
    obtain ⟨y, more, hy⟩ := List.exists_cons_of_length_pos (p.length_bytes ▸ p.width_pos)
    rw [hy] at hbytes ⊢
    exact (List.cons.inj hbytes).1 ▸ List.mem_cons_self
  obtain ⟨hchar, hone⟩ := Piece.eq_of_low hp hx hmem
  rw [hbytes, ofBytes_append hp, hchar]
  rw [hone, List.singleton_append] at hbytes
  rw [(List.cons.inj hbytes).2]

/-- Characters are read as they are written. -/
theorem ofBytes_ofString_append (s : String) (bs : List UInt8) :
    ofBytes ((ofString s).toBytes ++ bs) = ofString s ++ ofBytes bs := by
  rw [ofString]
  induction s.toList with
  | nil => rfl
  | cons c cs ih =>
    rw [List.map_cons, toBytes_cons, List.append_assoc, ofBytes_append (p := .char c) trivial, ih]
    rfl

/-- A low byte among the bytes of a text is a character of the text. -/
theorem Decoded.split {t : Text} (h : Decoded t) {x : UInt8} (hx : x < 0x80) {u v : List UInt8}
    (hbytes : t.toBytes = u ++ x :: v) :
    ∃ a b : Text, t = a ++ .char (Char.ofNat x.toNat) :: b ∧ a.toBytes = u ∧ b.toBytes = v := by
  induction t generalizing u with
  | nil => simp at hbytes
  | cons p t ih =>
    rw [toBytes_cons, List.append_eq_append_iff] at hbytes
    rcases hbytes with ⟨u', rfl, ht⟩ | ⟨more, hp, hmore⟩
    · -- The byte stands behind the first piece.
      obtain ⟨a, b, rfl, ha, hb⟩ := ih h.2 ht
      exact ⟨p :: a, b, rfl, by rw [toBytes_cons, ha], hb⟩
    · cases more with
      | nil =>
        obtain ⟨a, b, rfl, ha, hb⟩ := ih (u := []) h.2 hmore.symm
        rw [List.append_nil] at hp
        refine ⟨p :: a, b, rfl, ?_, hb⟩
        rw [toBytes_cons, ha, hp, List.append_nil]
      | cons y more =>
        -- The byte is in the first piece, and then it is all of it.
        obtain ⟨rfl, rfl⟩ := List.cons.inj hmore
        obtain ⟨hpiece, hone⟩ := Piece.eq_of_low h.1 hx (hp ▸ by simp)
        have hnil : u = [] ∧ more = [] := by
          rw [hone] at hp
          cases u with
          | nil => simpa using hp
          | cons z u => simp at hp
        obtain ⟨rfl, rfl⟩ := hnil
        exact ⟨[], t, by rw [hpiece]; rfl, rfl, rfl⟩

/-! ## Byte order mark -/

/-- Bytes without the encoding of a byte order mark at their start. -/
def cutMark : List UInt8 → List UInt8
  | 0xEF :: 0xBB :: 0xBF :: rest => rest
  | bs => bs

theorem dropMark_ofBytes (bs : List UInt8) : (ofBytes bs).dropMark = ofBytes (cutMark bs) := by
  have hmark : Piece.bytes (.char '\uFEFF') = [0xEF, 0xBB, 0xBF] := by decide
  unfold cutMark
  split
  · rename_i rest
    have hread : ofBytes (Piece.bytes (.char '\uFEFF') ++ rest) = .char '\uFEFF' :: ofBytes rest :=
      ofBytes_append (p := .char _) trivial
    rw [hmark] at hread
    exact congrArg dropMark hread
  · rename_i hnone
    have hbytes := toBytes_ofBytes bs
    unfold dropMark
    split
    · rename_i c rest htext
      rw [if_neg, htext]
      intro hc
      rw [htext, hc, toBytes_cons, hmark] at hbytes
      exact hnone _ hbytes.symm
    · rfl

end Text

end Clausal
