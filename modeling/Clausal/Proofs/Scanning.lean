/-
  Clausal.Proofs.Scanning

  Nothing is lost when bytes are cut into tokens. `Token.Kind.Written` says which bytes a token of
  each kind is written as; a lexeme takes just those (`Lexeme.read_written`). Behind it come blanks
  up to the next token (`Token.Spans`), and so on to the end (`Token.laid_tokensFrom`).

  `Scanner` hands out the tokens one call at a time, the end token for ever once there is no other
  one. `Scanner.calls_cover` is the statement about its calls.
-/
import Clausal.Proofs.Bytes
import Clausal.Proofs.Spelling
import Mathlib.Data.List.Chain

namespace Clausal

/-! ## Written tokens -/

/-- A space, a tab, a carriage return or a line feed. -/
def BlankByte (b : UInt8) : Prop := b = 0x20 ∨ b = 0x09 ∨ b = 0x0D ∨ b = 0x0A

/-- A carriage return or a line feed. -/
def LineEnd (b : UInt8) : Prop := b = 0x0D ∨ b = 0x0A

namespace Token

/-- Bytes from two hyphens up to the end of their line. -/
def LineComment (lexeme after : List UInt8) : Prop :=
  ∃ body, lexeme = [0x2D, 0x2D] ++ body ∧ (∀ b ∈ body, ¬ LineEnd b) ∧ ∀ b ∈ after.head?, LineEnd b

/-- Bytes from two opening braces up to the first two closing ones. -/
def BlockComment (lexeme : List UInt8) : Prop :=
  ∃ body, lexeme = [0x7B, 0x7B] ++ body ++ [0x7D, 0x7D] ∧ ¬ [0x7D, 0x7D] <:+: body ++ [0x7D]

/-- Bytes from two opening braces that are never closed. -/
def Unclosed (lexeme : List UInt8) : Prop :=
  ∃ body, lexeme = [0x7B, 0x7B] ++ body ∧ ¬ [0x7D, 0x7D] <:+: body

/-- The bytes `lexeme`, with `after` behind them, are how a token of some kind is written that says
    `literal`. -/
def Kind.Written (kind : Kind) (literal : Text) (lexeme after : List UInt8) : Prop :=
  match kind with
  | .eof => False
  | .ident | .keyword => lexeme = literal.toBytes
  | .comment => LineComment lexeme after ∨ BlockComment lexeme
  | .invalid =>
    (∃ p, Text.ofBytes (lexeme ++ after) = p :: Text.ofBytes after) ∨ Unclosed lexeme ∧ after = []
  | .wildcard => lexeme = (Text.ofString "_").toBytes
  | .rule => lexeme = (Text.ofString ">").toBytes
  | .colon => lexeme = (Text.ofString ":").toBytes
  | .arrow => lexeme = (Text.ofString "->").toBytes
  | .assign => lexeme = (Text.ofString "=").toBytes
  | .pipe => lexeme = (Text.ofString "|").toBytes
  | .semicolon => lexeme = (Text.ofString ";").toBytes
  | .lparen => lexeme = (Text.ofString "(").toBytes
  | .rparen => lexeme = (Text.ofString ")").toBytes

end Token

/-! ## Lexemes -/

namespace Piece

theorem is_iff {c : Char} {p : Piece} : p.is c = true ↔ p = .char c := by
  cases p with
  | char d => simp [is]
  | stray b => simp [is]

theorem bytes_of_isNewline {p : Piece} (h : p.isNewline = true) :
    p.bytes = [0x0A] ∨ p.bytes = [0x0D] := by
  simp only [isNewline, Bool.or_eq_true, is_iff] at h
  rcases h with rfl | rfl
  · exact .inl (by decide)
  · exact .inr (by decide)

/-- A blank is one blank byte. -/
theorem bytes_of_isBlank {p : Piece} (h : p.isBlank = true) : ∃ b, p.bytes = [b] ∧ BlankByte b := by
  simp only [isBlank, isSpace, isNewline, Bool.or_eq_true, is_iff] at h
  rcases h with (rfl | rfl) | rfl | rfl
  · exact ⟨0x20, by decide, .inl rfl⟩
  · exact ⟨0x09, by decide, .inr (.inl rfl)⟩
  · exact ⟨0x0A, by decide, .inr (.inr (.inr rfl))⟩
  · exact ⟨0x0D, by decide, .inr (.inr (.inl rfl))⟩

/-- The bytes of any other piece do not begin with a blank byte. -/
theorem bytes_of_not_isBlank {p : Piece} {bs : List UInt8} (h : p.Before bs)
    (hblank : ¬ p.isBlank = true) : ∃ b more, p.bytes = b :: more ∧ ¬ BlankByte b := by
  obtain ⟨b, more, hbytes⟩ := List.exists_cons_of_length_pos (p.length_bytes ▸ p.width_pos)
  refine ⟨b, more, hbytes, fun hb => hblank ?_⟩
  have hlow : b < 0x80 := by rcases hb with rfl | rfl | rfl | rfl <;> decide
  have hp := (eq_of_low h hlow (hbytes ▸ List.mem_cons_self)).1
  rcases hb with rfl | rfl | rfl | rfl
  all_goals
    rw [hp]
    decide

end Piece

namespace Text

theorem startsWith_is {c : Char} {t : Text} (h : t.startsWith (Piece.is c) = true) :
    t = .char c :: t.tail := by
  cases t with
  | nil => cases h
  | cons p t => rw [Piece.is_iff.1 h, List.tail_cons]

/-- Two closing braces. -/
def closing : Text := [.char '}', .char '}']

/-- Two closing braces among the bytes of a text are two pieces of it. -/
theorem Decoded.braces {t : Text} (h : Decoded t) (hbytes : [0x7D, 0x7D] <:+: t.toBytes) :
    closing <:+: t := by
  obtain ⟨u, v, huv⟩ := hbytes
  obtain ⟨a, b, rfl, -, hb⟩ := h.split (x := 0x7D) (u := u) (v := 0x7D :: v) (by decide)
    (by simp [← huv])
  obtain ⟨a', b', rfl, ha', -⟩ := h.append.2.2.split (x := 0x7D) (u := []) (by decide) hb
  have hnil : a' = [] := by
    cases a' with
    | nil => rfl
    | cons p a' =>
      have hwidth := p.width_pos
      rw [← p.length_bytes, List.length_pos_iff] at hwidth
      rw [toBytes_cons, List.append_eq_nil_iff] at ha'
      exact absurd ha'.1 hwidth
  exact ⟨a, b', by simp [hnil, closing]⟩

end Text

namespace Lexeme

open Text (closing)

theorem closes_iff {p : Piece} {rest : Text} :
    (p.is '}' && Text.startsWith (Piece.is '}') rest) = true ↔ closing <+: p :: rest := by
  cases rest with
  | nil => simp [Text.startsWith, closing]
  | cons q rest =>
    simp only [Text.startsWith, closing, Bool.and_eq_true, Piece.is_iff, List.cons_prefix_cons,
      List.nil_prefix, and_true, eq_comm (a := Piece.char '}')]

theorem closeAt?_eq_some {n m : Nat} {t : Text} (h : closeAt? n t = some m) :
    ∃ body after, t = body ++ closing ++ after ∧ m = n + body.length ∧
      ¬ closing <:+: body ++ [.char '}'] := by
  induction t generalizing n with
  | nil => cases h
  | cons p rest ih =>
    rw [closeAt?] at h
    split at h
    · rename_i hclose
      obtain ⟨after, hafter⟩ := closes_iff.1 hclose
      cases h
      exact ⟨[], after, hafter.symm, rfl, by decide⟩
    · rename_i hclose
      obtain ⟨body, after, rfl, rfl, hbody⟩ := ih h
      refine ⟨p :: body, after, rfl, by rw [List.length_cons]; omega, ?_⟩
      rw [List.cons_append, List.infix_cons_iff, not_or]
      refine ⟨fun hfirst => hclose (closes_iff.2 (hfirst.trans ?_)), hbody⟩
      exact ⟨.char '}' :: after, by simp [closing]⟩

theorem closeAt?_eq_none {n : Nat} {t : Text} (h : closeAt? n t = none) : ¬ closing <:+: t := by
  induction t generalizing n with
  | nil => simp [closing]
  | cons p rest ih =>
    rw [closeAt?] at h
    split at h
    · cases h
    · rename_i hclose
      rw [List.infix_cons_iff, not_or]
      exact ⟨fun hfirst => hclose (closes_iff.2 hfirst), ih h⟩

open Token

/-- A lexeme that begins at `p` takes just the bytes that its token is written as. -/
def WrittenAt (p : Piece) (rest : Text) (lexeme : Lexeme) : Prop :=
  Kind.Written lexeme.kind lexeme.literal (Text.toBytes (p :: rest.take lexeme.extra))
    (Text.toBytes (rest.drop lexeme.extra))

variable {p : Piece} {body rest : Text}

theorem lineComment_written (h : Text.Decoded body) :
    (lineComment body).WrittenAt (.char '-') (.char '-' :: body) := by
  have hcut := List.takeWhile_append_dropWhile (p := fun p => !Piece.isNewline p) (l := body)
  have hline := List.all_takeWhile (p := fun p => !Piece.isNewline p) (l := body)
  have hbehind := List.head?_dropWhile_not (fun p => !Piece.isNewline p) body
  simp only [WrittenAt, lineComment, List.take_succ_cons, List.drop_succ_cons]
  generalize body.takeWhile (fun p => !p.isNewline) = line at hcut hline ⊢
  generalize body.dropWhile (fun p => !p.isNewline) = behind at hcut hbehind
  subst hcut
  rw [List.take_left, List.drop_left]
  refine .inl ⟨Text.toBytes line, rfl, fun b hb hend => ?_, fun b hb => ?_⟩
  · -- A line end among the bytes is a piece of the line.
    obtain ⟨u, v, huv⟩ := List.append_of_mem hb
    have hlow : b < 0x80 := by rcases hend with rfl | rfl <;> decide
    obtain ⟨a, c, rfl, -, -⟩ := h.append.1.split hlow huv
    rw [List.all_append, List.all_cons, Bool.and_eq_true, Bool.and_eq_true] at hline
    rcases hend with rfl | rfl <;> exact absurd hline.2.1 (by decide)
  · cases behind with
    | nil => cases hb
    | cons q behind =>
      have hq : q.isNewline = true := by simpa using hbehind
      rcases Piece.bytes_of_isNewline hq with hbytes | hbytes
      · rw [Text.toBytes_cons, hbytes] at hb
        cases hb
        exact .inr rfl
      · rw [Text.toBytes_cons, hbytes] at hb
        cases hb
        exact .inl rfl

theorem blockComment_written (h : Text.Decoded body) :
    (blockComment body).WrittenAt (.char '{') (.char '{' :: body) := by
  rw [blockComment]
  split
  · rename_i n hclose
    obtain ⟨inner, behind, rfl, rfl, hinner⟩ := closeAt?_eq_some hclose
    have htake : (inner ++ closing ++ behind).take (0 + inner.length + 2) = inner ++ closing := by
      rw [Nat.zero_add]
      exact List.take_left' (by simp [closing])
    refine .inr ⟨Text.toBytes inner, ?_, fun hbytes => hinner ?_⟩
    · dsimp only
      rw [List.take_succ_cons, htake, Text.toBytes_cons, Text.toBytes_cons, Text.toBytes_append]
      rfl
    · -- The pair does not begin one brace earlier either, so one brace of it goes with the body.
      have hsplit : inner ++ closing ++ behind = inner ++ [.char '}'] ++ .char '}' :: behind := by
        simp [closing]
      rw [hsplit] at h
      refine h.append.1.braces ?_
      rw [Text.toBytes_append]
      exact hbytes
  · rename_i hclose
    refine .inr ⟨⟨Text.toBytes body, ?_, fun hbytes => ?_⟩, ?_⟩
    · dsimp only
      rw [List.take_succ_cons, List.take_length]
      rfl
    · exact closeAt?_eq_none hclose (h.braces hbytes)
    · dsimp only
      rw [List.drop_succ_cons, List.drop_length]
      rfl

/-- A piece that begins nothing is invalid alone. -/
theorem invalid_written (h : Text.Decoded (p :: rest)) (literal : Text) :
    WrittenAt p rest ⟨.invalid, literal, 0⟩ := by
  refine .inl ⟨p, ?_⟩
  rw [List.take_zero, Text.toBytes_cons, Text.toBytes_nil, List.append_nil]
  exact Text.ofBytes_append h.1

theorem mark_written (h : Text.Decoded (p :: rest)) : (mark p rest).WrittenAt p rest := by
  unfold mark
  split
  · split
    · exact invalid_written h _
    · rfl
  · split
    · rename_i hgt
      rw [Text.startsWith_is hgt]
      rfl
    · exact invalid_written h _
  -- Each of the other marks is written as the one character that it is read from.
  iterate 7 rfl
  exact invalid_written h _

/-- A lexeme takes just the bytes that its token is written as. -/
theorem read_written (h : Text.Decoded (p :: rest)) : (read p rest).WrittenAt p rest := by
  rw [read]
  split
  · rename_i hline
    rw [Bool.and_eq_true, Piece.is_iff] at hline
    obtain ⟨rfl, hrest⟩ := hline
    rw [Text.startsWith_is hrest] at h ⊢
    exact lineComment_written h.2.2
  · split
    · rename_i hblock
      rw [Bool.and_eq_true, Piece.is_iff] at hblock
      obtain ⟨rfl, hrest⟩ := hblock
      rw [Text.startsWith_is hrest] at h ⊢
      exact blockComment_written h.2.2
    · split
      · -- A word says just what it takes, whether or not it is a keyword.
        rw [word]
        split <;> rfl
      · exact mark_written h

end Lexeme

/-! ## Places -/

namespace Place

theorem past_append (here : Place) (t u : Text) : here.past (t ++ u) = (here.past t).past u :=
  List.foldl_append

theorem offset_past (here : Place) (t : Text) :
    (here.past t).offset = here.offset + t.toBytes.length := by
  induction t generalizing here with
  | nil => rfl
  | cons p t ih =>
    have hpast : here.past (p :: t) = (here.next p).past t := rfl
    rw [hpast, ih, Text.toBytes_cons, List.length_append, p.length_bytes, next, Nat.add_assoc]

/-- The place in a text that has `rest` behind it. -/
def Before (whole : Text) (place : Place) (rest : Text) : Prop :=
  ∃ before, whole = before ++ rest ∧ place = start.past before

variable {whole rest : Text} {place : Place}

theorem Before.past {t : Text} (h : Before whole place (t ++ rest)) :
    Before whole (place.past t) rest := by
  obtain ⟨before, rfl, rfl⟩ := h
  exact ⟨before ++ t, (List.append_assoc before t rest).symm, (past_append start before t).symm⟩

theorem Before.next {p : Piece} (h : Before whole place (p :: rest)) :
    Before whole (place.past [p]) rest := h.past

theorem Before.pass {p : Piece} (h : Before whole place (p :: rest)) (n : Nat) :
    Before whole (place.past (p :: rest.take n)) (rest.drop n) := by
  refine Before.past ?_
  rwa [List.cons_append, List.take_append_drop]

theorem Before.decoded {input : List UInt8} (h : Before (Text.ofBytes input) place rest) :
    Text.Decoded rest := by
  obtain ⟨before, hwhole, -⟩ := h
  have hinput := Text.decoded_ofBytes input
  rw [hwhole] at hinput
  exact hinput.append.2

theorem Before.drop_offset (h : Before whole place rest) :
    whole.toBytes.drop place.offset = rest.toBytes := by
  obtain ⟨before, rfl, rfl⟩ := h
  rw [offset_past, Text.toBytes_append]
  exact List.drop_left' (Nat.zero_add _).symm

end Place

theorem Text.size_eq (t : Text) : t.size = t.toBytes.length := by
  have hfrom (n : Nat) : t.foldl (fun n p => n + p.width) n = n + t.toBytes.length := by
    induction t generalizing n with
    | nil => rfl
    | cons p t ih =>
      rw [List.foldl_cons, ih, toBytes_cons, List.length_append, p.length_bytes, Nat.add_assoc]
  exact (hfrom 0).trans (Nat.zero_add _)

/-! ## Tokens -/

namespace Token

theorem tokensFrom_blank {place : Place} {p : Piece} {rest : Text} (h : p.isBlank = true) :
    tokensFrom place (p :: rest) = tokensFrom (place.past [p]) rest := by
  rw [tokensFrom, if_pos h]
  rfl

theorem tokensFrom_cons {place : Place} {p : Piece} {rest : Text} (h : ¬ p.isBlank = true) :
    tokensFrom place (p :: rest) =
      ⟨(Lexeme.read p rest).kind, (Lexeme.read p rest).literal, place.offset, place.position⟩ ::
        tokensFrom (place.past (p :: rest.take (Lexeme.read p rest).extra))
          (rest.drop (Lexeme.read p rest).extra) := by
  rw [tokensFrom, if_neg h]
  rfl

/-- From the offset of a token up to the offset of the next one stand its lexeme, which does not
    begin with a blank, and blanks. -/
def Spans (input : List UInt8) (t next : Token) : Prop :=
  t.offset < next.offset ∧ ∃ lexeme gap,
    (input.drop t.offset).take (next.offset - t.offset) = lexeme ++ gap ∧
      (∃ b ∈ lexeme.head?, ¬ BlankByte b) ∧ (∀ b ∈ gap, BlankByte b) ∧
      t.kind.Written t.literal lexeme (input.drop (t.offset + lexeme.length))

/-- Some tokens account for the bytes from an offset to the end: there are only blanks before the
    first token and between the lexeme of a token and the next one. -/
structure Laid (input : List UInt8) (offset : Nat) (tokens : List Token) : Prop where
  chain : tokens.IsChain (Spans input)
  lead : ∀ first ∈ tokens.head?, ∃ gap, first.offset = offset + gap.length ∧
    input.drop offset = gap ++ input.drop first.offset ∧ ∀ b ∈ gap, BlankByte b

namespace Laid

variable {input : List UInt8} {offset : Nat} {t : Token} {tokens : List Token}

theorem singleton (t : Token) : Laid input t.offset [t] where
  chain := .singleton t
  lead := by
    rintro _ ⟨⟩
    exact ⟨[], rfl, rfl, by simp⟩

theorem blank (h : Laid input (offset + 1) tokens) {b : UInt8} (hb : BlankByte b)
    (hoffset : input.drop offset = b :: input.drop (offset + 1)) : Laid input offset tokens where
  chain := h.chain
  lead := by
    intro first hfirst
    obtain ⟨gap, hgap, hdrop, hblank⟩ := h.lead first hfirst
    refine ⟨b :: gap, ?_, ?_, List.forall_mem_cons.2 ⟨hb, hblank⟩⟩
    · rw [hgap, List.length_cons]
      omega
    · rw [hoffset, hdrop, List.cons_append]

theorem token (lexeme : List UInt8) (hfirst : ∃ b ∈ lexeme.head?, ¬ BlankByte b)
    (h : Laid input (t.offset + lexeme.length) tokens)
    (hoffset : input.drop t.offset = lexeme ++ input.drop (t.offset + lexeme.length))
    (hwritten : t.kind.Written t.literal lexeme (input.drop (t.offset + lexeme.length))) :
    Laid input t.offset (t :: tokens) where
  chain := by
    cases tokens with
    | nil => exact .singleton t
    | cons first tokens =>
      obtain ⟨gap, hgap, hdrop, hblank⟩ := h.lead first rfl
      have hpos : 0 < lexeme.length := by
        obtain ⟨b, hb, -⟩ := hfirst
        exact List.length_pos_of_mem (List.mem_of_mem_head? hb)
      refine .cons_cons ⟨by omega, lexeme, gap, ?_, hfirst, hblank, hwritten⟩ h.chain
      rw [hoffset, hdrop, ← List.append_assoc]
      exact List.take_left' (by rw [List.length_append]; omega)
  lead := (singleton t).lead

end Laid

/-- The tokens of a text account for its bytes. -/
theorem laid_tokensFrom {input : List UInt8} {place : Place} {t : Text}
    (h : place.Before (Text.ofBytes input) t) :
    Laid input place.offset (tokensFrom place t ++ [endOf (Text.ofBytes input)]) := by
  induction place, t using tokensFrom.induct with
  | case1 place =>
    have hend : (endOf (Text.ofBytes input)).offset = place.offset := by
      obtain ⟨before, hwhole, rfl⟩ := h
      rw [List.append_nil] at hwhole
      rw [endOf, Text.size_eq, hwhole, Place.offset_past, Place.start, Nat.zero_add]
    rw [tokensFrom, ← hend]
    exact .singleton _
  | case2 place p rest hblank ih =>
    -- A blank moves the offset by one byte, which goes into the gap.
    obtain ⟨b, hbytes, hb⟩ := Piece.bytes_of_isBlank hblank
    have hrest := h.next
    have hoffset : (place.past [p]).offset = place.offset + 1 := by
      rw [Place.offset_past, Text.toBytes_cons, hbytes]
      rfl
    have hhere := h.drop_offset
    have hthere := hrest.drop_offset
    rw [Text.toBytes_ofBytes] at hhere hthere
    rw [tokensFrom_blank hblank]
    refine Laid.blank (hoffset ▸ ih hrest) hb ?_
    rw [← hoffset, hthere, hhere, Text.toBytes_cons, hbytes]
    rfl
  | case3 place p rest hblank lexeme ih =>
    -- What is behind the lexeme is laid out already; the lexeme goes in front of it.
    have hrest := h.pass lexeme.extra
    have hlaid := ih hrest
    have hhere := h.drop_offset
    have hthere := hrest.drop_offset
    rw [Text.toBytes_ofBytes] at hhere hthere
    rw [Place.offset_past] at hthere
    rw [tokensFrom_cons hblank]
    refine Laid.token (t := ⟨lexeme.kind, lexeme.literal, place.offset, place.position⟩)
      (Text.toBytes (p :: rest.take lexeme.extra)) ?_ ?_ ?_ ?_
    · obtain ⟨b, more, hbytes, hb⟩ := Piece.bytes_of_not_isBlank h.decoded.1 hblank
      refine ⟨b, ?_, hb⟩
      rw [Text.toBytes_cons, hbytes]
      rfl
    · rwa [← Place.offset_past]
    · rw [hthere, hhere, ← Text.toBytes_append, List.cons_append, List.take_append_drop]
    · rw [hthere]
      exact Lexeme.read_written h.decoded

theorem scan_ofBytes (bytes : List UInt8) : scan (Text.ofBytes bytes) =
    tokensFrom .start (Text.ofBytes (Text.cutMark bytes)) ++
      [endOf (Text.ofBytes (Text.cutMark bytes))] := by
  rw [scan, Text.dropMark_ofBytes]

end Token

/-! ## Calls -/

/-- A scanner stands somewhere in a text. `rest` is what it has not passed yet, and `stop` is the
    token that it has for the end of the text. -/
structure Scanner where
  place : Place
  rest : Text
  stop : Token

namespace Scanner

def ofText (t : Text) : Scanner := ⟨.start, t.dropMark, Token.endOf t.dropMark⟩

/-- One call passes the blanks and reads the lexeme behind them, if there is one. -/
def callFrom (stop : Token) (place : Place) : Text → Token × Scanner
  | [] => (stop, ⟨place, [], stop⟩)
  | p :: rest =>
    if p.isBlank then callFrom stop (place.next p) rest
    else
      let lexeme := Lexeme.read p rest
      (⟨lexeme.kind, lexeme.literal, place.offset, place.position⟩,
        ⟨(place.next p).past (rest.take lexeme.extra), rest.drop lexeme.extra, stop⟩)

def call (s : Scanner) : Token × Scanner := callFrom s.stop s.place s.rest

/-- The scanner after `n` calls. -/
def after (s : Scanner) : Nat → Scanner
  | 0 => s
  | n + 1 => (s.after n).call.2

/-- What the call after `n` others yields. -/
def nth (s : Scanner) (n : Nat) : Token := (s.after n).call.1

/-- The tokens that a scanner has in front of it. -/
def tokens (s : Scanner) : List Token := Token.tokensFrom s.place s.rest

theorem call_eq (s : Scanner) :
    s.call.1 = s.tokens.head?.getD s.stop ∧ s.call.2.tokens = s.tokens.tail ∧
      s.call.2.stop = s.stop := by
  obtain ⟨place, rest, stop⟩ := s
  change (callFrom stop place rest).1 = (Token.tokensFrom place rest).head?.getD stop ∧
    (callFrom stop place rest).2.tokens = (Token.tokensFrom place rest).tail ∧
    (callFrom stop place rest).2.stop = stop
  induction rest generalizing place with
  | nil => simp [callFrom, tokens, Token.tokensFrom]
  | cons p rest ih =>
    by_cases hblank : p.isBlank = true
    · simpa [callFrom, Token.tokensFrom, hblank] using ih (place.next p)
    · simp [callFrom, Token.tokensFrom, hblank, tokens]

/-- What is left after some calls. -/
theorem after_eq (s : Scanner) (n : Nat) :
    (s.after n).tokens = s.tokens.drop n ∧ (s.after n).stop = s.stop := by
  induction n with
  | zero => exact ⟨rfl, rfl⟩
  | succ n ih =>
    obtain ⟨-, htokens, hstop⟩ := (s.after n).call_eq
    rw [after, htokens, hstop, ih.1, ih.2, List.tail_drop]
    exact ⟨rfl, rfl⟩

/-- The calls yield the tokens in turn, and then the end token for ever. -/
theorem nth_eq (s : Scanner) (n : Nat) : s.nth n = s.tokens[n]?.getD s.stop := by
  obtain ⟨htokens, hstop⟩ := s.after_eq n
  rw [nth, (call_eq _).1, htokens, hstop, List.head?_drop]

theorem nth_of_length_le {s : Scanner} {n : Nat} (h : s.tokens.length ≤ n) : s.nth n = s.stop := by
  rw [nth_eq, List.getElem?_eq_none h, Option.getD_none]

theorem nth_eq_getElem {s : Scanner} {n : Nat} (h : n < (s.tokens ++ [s.stop]).length) :
    s.nth n = (s.tokens ++ [s.stop])[n] := by
  rw [nth_eq, List.getElem_append]
  split
  · rename_i hlt
    rw [List.getElem?_eq_getElem hlt, Option.getD_some]
  · rename_i hle
    rw [List.getElem?_eq_none (Nat.le_of_not_lt hle), Option.getD_none, List.getElem_singleton]

theorem kind_nth_ne_eof {s : Scanner} {n : Nat} (h : n < s.tokens.length) :
    (s.nth n).kind ≠ .eof := by
  rw [nth_eq, List.getElem?_eq_getElem h, Option.getD_some]
  exact Token.kind_ne_eof _ _ _ (List.getElem_mem h)

/-- The first calls yield the tokens and the end token. -/
theorem map_nth (s : Scanner) :
    (List.range (s.tokens.length + 1)).map s.nth = s.tokens ++ [s.stop] := by
  refine List.ext_getElem (by simp) fun i hi hi' => ?_
  rw [List.getElem_map, List.getElem_range, nth_eq_getElem hi']

section Laid

variable {input : List UInt8} {s : Scanner} (h : Token.Laid input 0 (s.tokens ++ [s.stop]))

include h

theorem blank_before_nth_zero : ∀ b ∈ input.take (s.nth 0).offset, BlankByte b := by
  have hfirst : (s.tokens ++ [s.stop]).head? = some (s.nth 0) := by
    rw [nth_eq_getElem (by simp), List.head?_eq_getElem?]
    exact List.getElem?_eq_getElem _
  obtain ⟨gap, hgap, hdrop, hblank⟩ := h.lead _ hfirst
  rw [List.drop_zero] at hdrop
  rwa [hdrop, List.take_left' (by omega)]

theorem nth_spans {n : Nat} (hn : n < s.tokens.length) :
    Token.Spans input (s.nth n) (s.nth (n + 1)) := by
  have hnext : n + 1 < (s.tokens ++ [s.stop]).length := by
    rw [List.length_append, List.length_singleton]
    omega
  rw [nth_eq_getElem (by omega), nth_eq_getElem hnext]
  exact List.isChain_iff_getElem.1 h.chain n hnext

end Laid

/-- **Nothing is skipped and nothing is read twice.** Whatever the bytes of a text are, a scanner
    yields finitely many tokens, in the order of their offsets, and then the end token for ever,
    which stands behind the last byte. Blanks come first. From the offset of each token to that of
    the next one stand the bytes that such a token is written as, and blanks. -/
theorem calls_cover (bytes : List UInt8) :
    let input := Text.cutMark bytes
    let call := (ofText (Text.ofBytes bytes)).nth
    ∃ n, (∀ i < n, (call i).kind ≠ .eof) ∧
      (∀ i, n ≤ i → (call i).kind = .eof ∧ (call i).offset = input.length) ∧
      Token.scan (Text.ofBytes bytes) = (List.range (n + 1)).map call ∧
      (∀ b ∈ input.take (call 0).offset, BlankByte b) ∧
      ∀ i < n, Token.Spans input (call i) (call (i + 1)) := by
  intro input call
  let s := ofText (Text.ofBytes bytes)
  have hscan : Token.scan (Text.ofBytes bytes) = s.tokens ++ [s.stop] := rfl
  have hstop : s.stop = Token.endOf (Text.ofBytes input) :=
    congrArg Token.endOf (Text.dropMark_ofBytes bytes)
  have hlaid : Token.Laid input 0 (s.tokens ++ [s.stop]) := by
    rw [← hscan, Token.scan_ofBytes]
    exact Token.laid_tokensFrom ⟨[], rfl, rfl⟩
  refine ⟨s.tokens.length, fun i hi => kind_nth_ne_eof hi, fun i hi => ?_, ?_,
    blank_before_nth_zero hlaid, fun i hi => nth_spans hlaid hi⟩
  · rw [show call i = s.stop from nth_of_length_le hi, hstop, Token.endOf, Text.size_eq,
      Text.toBytes_ofBytes]
    exact ⟨rfl, rfl⟩
  · rw [hscan, ← s.map_nth]

/-- A mark, a blank, a byte that begins no character, a NUL, an arrow and an unclosed comment. -/
theorem calls_cover_malformed :
    let input : List UInt8 := [0x20, 0xFF, 0x00, 0x2D, 0x3E, 0x7B, 0x7B, 0x61]
    let call := (ofText (Text.ofBytes (0xEF :: 0xBB :: 0xBF :: input))).nth
    (List.range 6).map (fun i => ((call i).kind, (call i).offset)) =
        [(.invalid, 1), (.invalid, 2), (.arrow, 3), (.invalid, 5), (.eof, 8), (.eof, 8)] ∧
      (∀ b ∈ input.take 1, BlankByte b) ∧
      ∀ i < 4, Token.Spans input (call i) (call (i + 1)) := by
  intro input call
  have hcalls : (List.range 6).map (fun i => ((call i).kind, (call i).offset)) =
      [(.invalid, 1), (.invalid, 2), (.arrow, 3), (.invalid, 5), (.eof, 8), (.eof, 8)] := by
    decide +kernel
  obtain ⟨n, -, hend, -, hlead, hspans⟩ := calls_cover (0xEF :: 0xBB :: 0xBF :: input)
  have hthree : (call 3).kind = .invalid := by decide +kernel
  have hn : 4 ≤ n := by
    refine Nat.lt_of_not_le fun hle => ?_
    exact absurd (hthree.symm.trans (hend 3 hle).1) (by decide)
  have hzero : (call 0).offset = 1 := by decide +kernel
  refine ⟨hcalls, ?_, fun i hi => hspans i (by omega)⟩
  rw [← hzero]
  exact hlead

end Scanner

end Clausal
