/-
  Clausal.Proofs.Layouts

  A text is read as it is spelled, whatever stands between its words.

  A sign (`Sign`) is a word or a mark as it is written. Behind each sign comes a spacing
  (`Spacing`): a blank, and then blanks and comments in any order. A comment is given by its bytes,
  and these need not be characters. A sign is read to its end because the blank ends it, and a
  comment is gone over because its own end is the first that is found; so the signs can be read off
  one by one (`Says`).
-/
import Clausal.Proofs.Scanning

namespace Clausal

/-! ## Signs -/

/-- A word: a letter, with or without a quote before it, and letters, digits, underscores and
    hyphens behind it. -/
structure Word where
  quoted : Bool
  first : Char
  more : List Char
  letter : Text.isLetter first = true
  parts : ∀ c ∈ more, Text.isLetter c = true ∨ ('0' ≤ c ∧ c ≤ '9') ∨ c = '_' ∨ c = '-'

def Word.name (w : Word) : String :=
  String.ofList ((if w.quoted then ['\''] else []) ++ w.first :: w.more)

/-- A word or a mark. -/
inductive Sign where
  | word (w : Word)
  | wildcard
  | rule
  | colon
  | arrow
  | assign
  | pipe
  | semicolon
  | lparen
  | rparen

namespace Sign

def spelling : Sign → String
  | .word w => w.name
  | .wildcard => "_"
  | .rule => ">"
  | .colon => ":"
  | .arrow => "->"
  | .assign => "="
  | .pipe => "|"
  | .semicolon => ";"
  | .lparen => "("
  | .rparen => ")"

/-- The kind of the token that a sign should be read as. -/
def kind : Sign → Token.Kind
  | .word w => if w.name = "decltype" ∨ w.name = "builtin" then .keyword else .ident
  | .wildcard => .wildcard
  | .rule => .rule
  | .colon => .colon
  | .arrow => .arrow
  | .assign => .assign
  | .pipe => .pipe
  | .semicolon => .semicolon
  | .lparen => .lparen
  | .rparen => .rparen

/-- What the token should say. Only words and the wildcard say anything. -/
def literal : Sign → Text
  | .word w => Text.ofString w.name
  | .wildcard => Text.ofString "_"
  | _ => []

def bytes (x : Sign) : List UInt8 := (Text.ofString x.spelling).toBytes

end Sign

/-! ## Spacings -/

/-- What says nothing: a blank, a comment that ends with its line, or a comment between braces. -/
inductive Filler where
  | blank (b : UInt8) (h : BlankByte b)
  | line (body : List UInt8) (stop : UInt8) (hbody : ∀ b ∈ body, ¬ LineEnd b) (hstop : LineEnd stop)
  | block (body : List UInt8) (hbody : ¬ [0x7D, 0x7D] <:+: body ++ [0x7D])

def Filler.bytes : Filler → List UInt8
  | .blank b _ => [b]
  | .line body stop _ _ => [0x2D, 0x2D] ++ body ++ [stop]
  | .block body _ => [0x7B, 0x7B] ++ body ++ [0x7D, 0x7D]

/-- What may stand between two signs. It begins with a blank. -/
structure Spacing where
  first : UInt8
  blank : BlankByte first
  more : List Filler

def Spacing.bytes (g : Spacing) : List UInt8 := g.first :: g.more.flatMap Filler.bytes

/-- Signs with a spacing behind each of them, and one before the first or none. -/
structure Layout where
  lead : Option Spacing
  body : List (Sign × Spacing)

namespace Layout

def signs (l : Layout) : List Sign := l.body.map Prod.fst

def bytes (l : Layout) : List UInt8 :=
  l.lead.toList.flatMap Spacing.bytes ++ l.body.flatMap fun (x, g) => x.bytes ++ g.bytes

end Layout

/-! ## What texts say -/

namespace Token

/-- The kinds and the literals of some tokens, without the comments. -/
def said (tokens : List Token) : List (Kind × Text) :=
  (tokens.filter (·.kind != .comment)).map fun t => (t.kind, t.literal)

/-- Wherever a text begins, its tokens say the same. -/
def Says (t : Text) (ws : List (Kind × Text)) : Prop := ∀ place, said (tokensFrom place t) = ws

namespace Says

variable {p : Piece} {t rest : Text} {ws : List (Kind × Text)}

theorem nil : Says [] [] := by
  intro place
  rw [tokensFrom]
  rfl

theorem blank (h : Says t ws) (hp : p.isBlank = true) : Says (p :: t) ws := by
  intro place
  rw [tokensFrom_blank hp]
  exact h _

/-- A comment is gone over. -/
theorem comment {x : Lexeme} (hp : p.isBlank = false) (hread : Lexeme.read p rest = x)
    (hkind : x.kind = .comment) (h : Says (rest.drop x.extra) ws) : Says (p :: rest) ws := by
  intro place
  rw [tokensFrom_cons (by simp [hp]), hread, said, List.filter_cons_of_neg (by simp [hkind])]
  exact h _

theorem lexeme {x : Lexeme} (hp : p.isBlank = false) (hread : Lexeme.read p rest = x)
    (hkind : x.kind ≠ .comment) (h : Says (rest.drop x.extra) ws) :
    Says (p :: rest) ((x.kind, x.literal) :: ws) := by
  intro place
  rw [tokensFrom_cons (by simp [hp]), hread, said, List.filter_cons_of_pos (by simpa using hkind)]
  exact congrArg _ (h _)

end Says

end Token

/-! ## Going over comments -/

namespace Lexeme

open Text (closing)

theorem read_line (more : Text) : read (.char '-') (.char '-' :: more) = lineComment more := rfl

theorem read_block (more : Text) : read (.char '{') (.char '{' :: more) = blockComment more := rfl

/-- A comment ends with its line. -/
theorem extra_lineComment {body : Text} {stop : Piece} (hbody : ∀ p ∈ body, p.isNewline = false)
    (hstop : stop.isNewline = true) (rest : Text) :
    (lineComment (body ++ stop :: rest)).extra = body.length + 1 := by
  have htake : (body ++ stop :: rest).takeWhile (fun p => !p.isNewline) = body := by
    rw [List.takeWhile_append_of_pos (by simpa using hbody),
      List.takeWhile_cons_of_neg (by simp [hstop]), List.append_nil]
  rw [lineComment, htake]

/-- The first pair of closing braces is the one that ends the comment. -/
theorem closeAt?_append {body : Text} (hbody : ¬ closing <:+: body ++ [.char '}']) (n : Nat)
    (rest : Text) : closeAt? n (body ++ closing ++ rest) = some (n + body.length) := by
  induction body generalizing n with
  | nil => rfl
  | cons p body ih =>
    rw [List.cons_append, List.infix_cons_iff, not_or] at hbody
    have hnot :
        ¬ (p.is '}' && Text.startsWith (Piece.is '}') (body ++ closing ++ rest)) = true := by
      -- The two pieces that would close the comment are in the body with one brace behind it.
      rw [closes_iff]
      intro hclosing
      refine hbody.1 ?_
      cases body with
      | nil => simpa [closing] using hclosing
      | cons q body => simpa [closing] using hclosing
    rw [List.cons_append, List.cons_append, closeAt?, if_neg hnot, ih hbody.2, List.length_cons]
    congr 1
    omega

theorem blockComment_append {body : Text} (hbody : ¬ closing <:+: body ++ [.char '}'])
    (rest : Text) : (blockComment (body ++ closing ++ rest)).kind = .comment ∧
      (blockComment (body ++ closing ++ rest)).extra = body.length + 3 := by
  rw [blockComment, closeAt?_append hbody, Nat.zero_add]
  exact ⟨rfl, rfl⟩

end Lexeme

namespace Token.Says

open Text (ofBytes closing)

variable {bs : List UInt8} {ws : List (Kind × Text)}

/-- A blank byte is a blank. -/
theorem blankByte (h : Says (ofBytes bs) ws) {b : UInt8} (hb : BlankByte b) :
    Says (ofBytes (b :: bs)) ws := by
  have hlow : b < 0x80 := by rcases hb with rfl | rfl | rfl | rfl <;> decide
  rw [Text.ofBytes_cons_low hlow]
  refine h.blank ?_
  rcases hb with rfl | rfl | rfl | rfl <;> rfl

theorem lineComment (h : Says (ofBytes bs) ws) {body : List UInt8} {stop : UInt8}
    (hbody : ∀ b ∈ body, ¬ LineEnd b) (hstop : LineEnd stop) :
    Says (ofBytes ([0x2D, 0x2D] ++ body ++ stop :: bs)) ws := by
  have hlow : stop < 0x80 := by rcases hstop with rfl | rfl <;> decide
  have hnewline : Piece.isNewline (.char (Char.ofNat stop.toNat)) = true := by
    rcases hstop with rfl | rfl <;> rfl
  have htext : ofBytes ([0x2D, 0x2D] ++ body ++ stop :: bs) = .char '-' :: .char '-' ::
      (ofBytes body ++ .char (Char.ofNat stop.toNat) :: ofBytes bs) := by
    rw [List.append_assoc, List.cons_append, List.singleton_append,
      Text.ofBytes_cons_low (by decide), Text.ofBytes_cons_low (by decide),
      Text.ofBytes_append_low body (by simpa using hlow), Text.ofBytes_cons_low hlow]
    rfl
  have hline : ∀ p ∈ ofBytes body, p.isNewline = false := by
    intro p hp
    by_contra hnot
    have hbytes : ∀ b ∈ p.bytes, b ∈ body := by
      intro b hb
      rw [← Text.toBytes_ofBytes body]
      exact List.mem_flatMap.2 ⟨p, hp, hb⟩
    rcases Piece.bytes_of_isNewline (Bool.eq_true_of_not_eq_false hnot) with heq | heq
    · exact hbody _ (hbytes _ (heq ▸ List.mem_singleton_self _)) (.inr rfl)
    · exact hbody _ (hbytes _ (heq ▸ List.mem_singleton_self _)) (.inl rfl)
  -- The comment takes its second hyphen and its body; the end of the line is left as a blank.
  rw [htext]
  refine .comment rfl (Lexeme.read_line _) rfl ?_
  rw [Lexeme.extra_lineComment hline hnewline, List.drop_succ_cons, List.drop_left]
  refine h.blank ?_
  rw [Piece.isBlank, hnewline, Bool.or_true]

theorem blockComment (h : Says (ofBytes bs) ws) {body : List UInt8}
    (hbody : ¬ [0x7D, 0x7D] <:+: body ++ [0x7D]) :
    Says (ofBytes ([0x7B, 0x7B] ++ body ++ [0x7D, 0x7D] ++ bs)) ws := by
  have htext : ofBytes ([0x7B, 0x7B] ++ body ++ [0x7D, 0x7D] ++ bs) = .char '{' :: .char '{' ::
      (ofBytes body ++ closing ++ ofBytes bs) := by
    rw [List.append_assoc, List.append_assoc, List.cons_append, List.singleton_append,
      Text.ofBytes_cons_low (by decide), Text.ofBytes_cons_low (by decide),
      Text.ofBytes_append_low body (by simp), List.cons_append, List.singleton_append,
      Text.ofBytes_cons_low (by decide), Text.ofBytes_cons_low (by decide), List.append_assoc]
    rfl
  have hclosing : ¬ closing <:+: ofBytes body ++ [.char '}'] := by
    rintro ⟨a, b, hab⟩
    refine hbody ⟨Text.toBytes a, Text.toBytes b, ?_⟩
    have hbytes := congrArg Text.toBytes hab
    simp only [Text.toBytes_append, Text.toBytes_ofBytes] at hbytes
    exact hbytes
  obtain ⟨hkind, hextra⟩ := Lexeme.blockComment_append hclosing (ofBytes bs)
  -- Besides its body the comment takes the second opening brace and both closing ones.
  rw [htext]
  refine .comment rfl (Lexeme.read_block _) hkind ?_
  rw [hextra, List.drop_succ_cons, List.drop_left' (by simp [closing])]
  exact h

theorem filler (h : Says (ofBytes bs) ws) (x : Filler) : Says (ofBytes (x.bytes ++ bs)) ws := by
  cases x with
  | blank b hb => exact h.blankByte hb
  | line body stop hbody hstop =>
    have hline := h.lineComment hbody hstop
    rwa [Filler.bytes, List.append_assoc _ [stop]]
  | block body hbody => exact h.blockComment hbody

theorem spacing (h : Says (ofBytes bs) ws) (g : Spacing) : Says (ofBytes (g.bytes ++ bs)) ws := by
  have hmore (xs : List Filler) : Says (ofBytes (xs.flatMap Filler.bytes ++ bs)) ws := by
    induction xs with
    | nil => exact h
    | cons x xs ih =>
      rw [List.flatMap_cons, List.append_assoc]
      exact ih.filler x
  exact (hmore g.more).blankByte g.blank

end Token.Says

/-! ## Reading signs -/

namespace Piece

theorem not_isWordPart_of_isBlank {p : Piece} (h : p.isBlank = true) :
    p.isWordPart = false ∧ p.is '>' = false := by
  simp only [isBlank, isSpace, isNewline, Bool.or_eq_true, is_iff] at h
  rcases h with (rfl | rfl) | rfl | rfl <;> exact ⟨rfl, rfl⟩

end Piece

theorem Text.boundary_of_blank {rest : Text} (h : rest.startsWith Piece.isBlank = true) :
    Boundary rest := by
  cases rest with
  | nil => cases h
  | cons p rest =>
    obtain ⟨hpart, hgt⟩ := Piece.not_isWordPart_of_isBlank h
    rw [Boundary, startsWith, hpart, hgt]
    rfl

theorem Lexeme.wordLength_of_parts {cs : Text} (h : ∀ p ∈ cs, p.isWordPart = true) :
    wordLength cs = cs.length := by
  induction cs with
  | nil => rfl
  | cons p cs ih =>
    rw [List.forall_mem_cons] at h
    -- What comes next is a part of the word as well, so no arrow begins here.
    have hnext : Text.startsWith (Piece.is '>') cs = false := by
      cases cs with
      | nil => rfl
      | cons q cs =>
        by_contra hgt
        have hq := h.2 q List.mem_cons_self
        rw [Piece.is_iff.1 (Bool.eq_true_of_not_eq_false hgt)] at hq
        cases hq
    rw [wordLength, h.1, hnext, ih h.2]
    simp

theorem Word.exists_pieces (w : Word) : ∃ p cs, Text.ofString w.name = p :: cs ∧
    Lexeme.startsWord p cs = true ∧ Lexeme.wordLength cs = cs.length := by
  have hletter : Piece.isLetter (.char w.first) = true := w.letter
  have hmore : ∀ p ∈ w.more.map Piece.char, p.isWordPart = true := by
    rw [List.forall_mem_map]
    intro c hc
    have hletter : Piece.isLetter (.char c) = Text.isLetter c := rfl
    have hdigit : Piece.isDigit (.char c) = (decide ('0' ≤ c) && decide (c ≤ '9')) := rfl
    rw [Piece.isWordPart, hletter, hdigit]
    rcases w.parts c hc with hpart | ⟨hleast, hgreatest⟩ | rfl | rfl
    · simp [hpart]
    · simp [decide_eq_true hleast, decide_eq_true hgreatest]
    · simp [Piece.is]
    · simp [Piece.is]
  have hname : Text.ofString w.name
      = ((if w.quoted then ['\''] else []) ++ w.first :: w.more).map Piece.char := by
    rw [Text.ofString, name, String.toList_ofList]
  cases hquoted : w.quoted with
  | true =>
    have hall : ∀ p ∈ Piece.char w.first :: w.more.map Piece.char, p.isWordPart = true :=
      List.forall_mem_cons.2 ⟨by simp [Piece.isWordPart, hletter], hmore⟩
    rw [hname, hquoted]
    exact ⟨.char '\'', _, rfl, hletter, Lexeme.wordLength_of_parts hall⟩
  | false =>
    have hquote : ¬ Piece.is '\'' (.char w.first) = true := by
      intro heq
      rw [Piece.is_iff.1 heq] at hletter
      exact absurd hletter (by decide)
    rw [hname, hquoted]
    refine ⟨.char w.first, _, rfl, ?_, Lexeme.wordLength_of_parts hmore⟩
    rw [Lexeme.startsWord, if_neg hquote, hletter]

namespace Sign

theorem kind_word (w : Word) :
    (word w).kind = if Lexeme.keywords.contains w.name then .keyword else .ident := by
  simp [kind, Lexeme.keywords]

/-- A sign with a blank behind it is read as it is meant. -/
theorem exists_read (x : Sign) {rest : Text} (hrest : rest.startsWith Piece.isBlank = true) :
    ∃ p cs, Text.ofString x.spelling = p :: cs ∧ p.isBlank = false ∧
      Lexeme.read p (cs ++ rest) = ⟨x.kind, x.literal, cs.length⟩ := by
  have hboundary := Text.boundary_of_blank hrest
  cases x with
  | word w =>
    obtain ⟨p, cs, htext, hstarts, hword⟩ := w.exists_pieces
    obtain ⟨hblank, hread⟩ := Text.read_word hstarts hword hboundary
    have hname : Text.toString (p :: cs) = w.name := by rw [← htext, Text.toString_ofString]
    refine ⟨p, cs, htext, hblank, ?_⟩
    rw [hread, hname, ← htext, kind_word]
    rfl
  | wildcard =>
    have hpart : rest.startsWith Piece.isWordPart = false := by
      cases rest with
      | nil => rfl
      | cons q rest => exact hboundary.isWordPart
    refine ⟨.char '_', [], rfl, rfl, ?_⟩
    show Lexeme.mk (if rest.startsWith Piece.isWordPart then .invalid else .wildcard) _ 0 = _
    rw [hpart]
    rfl
  | arrow => exact ⟨.char '-', [.char '>'], rfl, rfl, rfl⟩
  | rule => exact ⟨.char '>', [], rfl, rfl, rfl⟩
  | colon => exact ⟨.char ':', [], rfl, rfl, rfl⟩
  | assign => exact ⟨.char '=', [], rfl, rfl, rfl⟩
  | pipe => exact ⟨.char '|', [], rfl, rfl, rfl⟩
  | semicolon => exact ⟨.char ';', [], rfl, rfl, rfl⟩
  | lparen => exact ⟨.char '(', [], rfl, rfl, rfl⟩
  | rparen => exact ⟨.char ')', [], rfl, rfl, rfl⟩

theorem kind_ne (x : Sign) : x.kind ≠ .comment ∧ x.kind ≠ .invalid := by
  cases x with
  | word w =>
    rw [kind_word]
    split <;> simp
  | _ => simp [kind]

end Sign

/-! ## Layouts -/

theorem Token.Says.sign {rest : Text} {ws : List (Kind × Text)} (h : Says rest ws)
    (hrest : rest.startsWith Piece.isBlank = true) (x : Sign) :
    Says (Text.ofString x.spelling ++ rest) ((x.kind, x.literal) :: ws) := by
  obtain ⟨p, cs, htext, hblank, hread⟩ := x.exists_read hrest
  rw [htext, List.cons_append]
  refine .lexeme hblank hread x.kind_ne.1 ?_
  rwa [List.drop_left]

namespace Layout

open Text (ofBytes)

theorem startsWith_spacing (g : Spacing) (bs : List UInt8) :
    (ofBytes (g.bytes ++ bs)).startsWith Piece.isBlank = true := by
  have hlow : g.first < 0x80 := by rcases g.blank with h | h | h | h <;> rw [h] <;> decide
  rw [Spacing.bytes, List.cons_append, Text.ofBytes_cons_low hlow]
  rcases g.blank with h | h | h | h <;> rw [h] <;> rfl

/-- A layout says its signs, one after the other. -/
theorem said_signs (l : Layout) :
    Token.Says (ofBytes l.bytes) (l.signs.map fun x => (x.kind, x.literal)) := by
  have hbody (body : List (Sign × Spacing)) :
      Token.Says (ofBytes (body.flatMap fun (x, g) => x.bytes ++ g.bytes))
        ((body.map Prod.fst).map fun x => (x.kind, x.literal)) := by
    induction body with
    | nil => exact .nil
    | cons entry body ih =>
      obtain ⟨x, g⟩ := entry
      rw [List.flatMap_cons, List.append_assoc, Sign.bytes, Text.ofBytes_ofString_append]
      exact (ih.spacing g).sign (startsWith_spacing g _) x
  rw [bytes, signs]
  cases l.lead with
  | none => exact hbody l.body
  | some g =>
    rw [Option.toList_some, List.flatMap_singleton]
    exact (hbody l.body).spacing g

/-- What the parser sees of a layout is its signs. -/
theorem symbols_eq (l : Layout) : (ofBytes l.bytes).symbols =
    l.signs.map fun x => Token.symbol ⟨x.kind, x.literal, 0, ⟨1, 1⟩⟩ := by
  have hsaid := congrArg (List.map fun w : Token.Kind × Text => Token.symbol ⟨w.1, w.2, 0, ⟨1, 1⟩⟩)
    (l.said_signs .start)
  rw [Token.said, List.map_map, List.map_map] at hsaid
  exact hsaid

/-- No sign is a byte order mark. -/
theorem dropMark_eq (l : Layout) : (ofBytes l.bytes).dropMark = ofBytes l.bytes := by
  refine Text.dropMark_eq ?_
  rw [symbols_eq, List.head?_map]
  intro hhead
  obtain ⟨x, -, hx⟩ := Option.map_eq_some_iff.1 hhead
  rw [Token.symbol] at hx
  split at hx
  · cases hx
  · cases hx
  · exact x.kind_ne.2 (Symbol.mark.inj hx)

/-- **Spelling is undone for every layout.** Whatever blanks and comments stand before, between and
    behind some signs, scanning yields one token for each sign, in order, of the right kind and with
    the right literal, then the end token, and comments besides. So two texts that differ only in
    what stands between the signs are read as the same declarations and as the same expression. -/
theorem signs_read_back (l : Layout) :
    Token.said (Token.scan (ofBytes l.bytes))
        = l.signs.map (fun x => (x.kind, x.literal)) ++ [(.eof, [])] ∧
      ∀ l' : Layout, l'.signs = l.signs →
        (∀ file ts, parseProgram (ofBytes l'.bytes) file = .ok ts ↔
          parseProgram (ofBytes l.bytes) file = .ok ts) ∧
        ∀ t, parseExpression (ofBytes l'.bytes) = .ok t ↔
          parseExpression (ofBytes l.bytes) = .ok t := by
  refine ⟨?_, fun l' hsigns => ?_⟩
  · have hsaid := l.said_signs .start
    rw [Token.said] at hsaid
    rw [Token.scan, dropMark_eq, Token.said, List.filter_append, List.map_append, hsaid]
    rfl
  · have hsymbols : (ofBytes l'.bytes).dropMark.symbols = (ofBytes l.bytes).dropMark.symbols := by
      rw [dropMark_eq, dropMark_eq, symbols_eq, symbols_eq, hsigns]
    refine ⟨fun file ts => ?_, fun t => ?_⟩
    · rw [parseProgram_iff, parseProgram_iff, hsymbols]
    · rw [parseExpression_iff, parseExpression_iff, hsymbols]

/-- The words `f-` and `'x`. -/
def hyphenWord : Word := ⟨false, 'f', ['-'], by decide, by simp⟩

def quotedWord : Word := ⟨true, 'x', [], by decide, by simp⟩

/-- The text `> f- _ = 'x`, with a space behind each sign. -/
def spacedClause : Layout :=
  let space : Spacing := ⟨0x20, .inl rfl, []⟩
  ⟨none, [.rule, .word hyphenWord, .wildcard, .assign, .word quotedWord].map (·, space)⟩

/-- The same clause with comments in it. One of them is a line that ends in the middle of a
    character, the other has single braces in it. -/
def commentedClause : Layout :=
  let line : Filler := .line [0x2D, 0xC3] 0x0A (by simp [LineEnd]) (.inr rfl)
  let block : Filler := .block [0x7B, 0x7D, 0x0D, 0xFF] (by decide)
  let space : Spacing := ⟨0x20, .inl rfl, []⟩
  ⟨some ⟨0x0A, .inr (.inr (.inr rfl)), [block]⟩,
    [(.rule, space), (.word hyphenWord, ⟨0x09, .inr (.inl rfl), [line, block]⟩), (.wildcard, space),
      (.assign, ⟨0x0D, .inr (.inr (.inl rfl)), [block, block]⟩), (.word quotedWord, space)]⟩

theorem signs_read_back_commented :
    commentedClause.signs = spacedClause.signs ∧
      parseProgram (ofBytes commentedClause.bytes) ""
        = .ok [.define (.app [.ident "f-", .ident "_"]) (.ident "'x")] := by
  have hspaced : parseProgram (ofBytes spacedClause.bytes) ""
      = .ok [.define (.app [.ident "f-", .ident "_"]) (.ident "'x")] := by
    decide +kernel
  exact ⟨rfl, (((signs_read_back spacedClause).2 commentedClause rfl).1 "" _).2 hspaced⟩

end Layout

end Clausal
