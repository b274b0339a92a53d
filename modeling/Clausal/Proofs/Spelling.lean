/-
  Clausal.Proofs.Spelling

  What a text says to the parser. `Text.symbols` are the symbols of a text without its comments;
  where in the text they stand does not matter, so they can be read off piece by piece.

  A name is lexical if it is one word when it is scanned alone (`Lexical`). Such a name is read back
  wherever it is written, provided that what stands behind it does not go on with the word
  (`Spelled`). Separators and opening parentheses are read back whatever stands behind them
  (`Gap`). Texts that are put together of names and gaps spell what their parts spell.
-/
import Clausal.Proofs.Recognition
import Clausal.Token.Lexer

namespace Clausal

namespace Text

/-! ## Symbols of a text -/

/-- The symbols of a text that begins at a given place. Comments have none. -/
def symbolsFrom (place : Place) (t : Text) : List Symbol :=
  ((Token.tokensFrom place t).filter (·.kind != .comment)).map Token.symbol

def symbols (t : Text) : List Symbol := symbolsFrom .start t

/-- What a lexeme is to the grammar. -/
def symbolOf (lexeme : Lexeme) : Symbol :=
  Token.symbol ⟨lexeme.kind, lexeme.literal, 0, ⟨1, 1⟩⟩

theorem symbolsFrom_cons_blank {place : Place} {p : Piece} {rest : Text} (h : p.isBlank = true) :
    symbolsFrom place (p :: rest) = symbolsFrom (place.next p) rest := by
  rw [symbolsFrom, Token.tokensFrom, if_pos h, symbolsFrom]

theorem symbolsFrom_cons {place : Place} {p : Piece} {rest : Text} (h : p.isBlank = false) :
    symbolsFrom place (p :: rest) =
      (if (Lexeme.read p rest).kind = .comment then [] else [symbolOf (Lexeme.read p rest)]) ++
        symbolsFrom ((place.next p).past (rest.take (Lexeme.read p rest).extra))
          (rest.drop (Lexeme.read p rest).extra) := by
  rw [symbolsFrom, Token.tokensFrom, if_neg (by rw [h]; decide), symbolsFrom, List.filter_cons]
  by_cases hcomment : (Lexeme.read p rest).kind = .comment
  · simp [hcomment]
  · simp [hcomment]
    rfl

/-- Places are only noted; they do not decide what a text says. -/
theorem symbolsFrom_eq (place : Place) (t : Text) : symbolsFrom place t = symbols t := by
  have hplace : ∀ place place' : Place, symbolsFrom place t = symbolsFrom place' t := by
    intro place
    induction place, t using Token.tokensFrom.induct with
    | case1 place =>
      intro place'
      rw [symbolsFrom, symbolsFrom, Token.tokensFrom, Token.tokensFrom]
    | case2 place p rest hblank ih =>
      intro place'
      rw [symbolsFrom_cons_blank hblank, symbolsFrom_cons_blank hblank]
      exact ih _
    | case3 place p rest hblank lexeme ih =>
      intro place'
      have hblank : p.isBlank = false := Bool.eq_false_iff.2 hblank
      rw [symbolsFrom_cons hblank, symbolsFrom_cons hblank]
      exact congrArg _ (ih _)
  exact hplace place .start

@[simp] theorem symbols_nil : symbols [] = [] := by
  rw [symbols, symbolsFrom, Token.tokensFrom]
  rfl

theorem symbols_cons_blank {p : Piece} {rest : Text} (h : p.isBlank = true) :
    symbols (p :: rest) = symbols rest := by
  rw [symbols, symbolsFrom_cons_blank h, symbolsFrom_eq]

theorem symbols_cons {p : Piece} {rest : Text} (h : p.isBlank = false) :
    symbols (p :: rest) =
      (if (Lexeme.read p rest).kind = .comment then [] else [symbolOf (Lexeme.read p rest)]) ++
        symbols (rest.drop (Lexeme.read p rest).extra) := by
  rw [symbols, symbolsFrom_cons h, symbolsFrom_eq]

end Text

/-! ## What the lexer never does -/

namespace Lexeme

/-- A mark is neither a word nor the end of the text. -/
theorem mark_kind (p : Piece) (rest : Text) :
    (mark p rest).kind ≠ .eof ∧ (mark p rest).kind ≠ .ident := by
  unfold mark
  split
  · dsimp only
    split <;> exact ⟨by decide, by decide⟩
  · split <;> exact ⟨by decide, by decide⟩
  all_goals simp

theorem read_ne_eof (p : Piece) (rest : Text) : (read p rest).kind ≠ .eof := by
  rw [read]
  split
  · simp [lineComment]
  · split
    · rw [blockComment]
      split <;> simp
    · split
      · rw [word]
        dsimp only
        split <;> simp
      · exact (mark_kind p rest).1

/-- An identifier is a word. -/
theorem read_ident {p : Piece} {rest : Text} (h : (read p rest).kind = .ident) :
    startsWord p rest = true ∧ read p rest = word p rest := by
  rw [read] at h ⊢
  split at h
  · cases h
  · split at h
    · rw [blockComment] at h
      split at h <;> cases h
    · split at h
      · rename_i hline hblock hword
        rw [if_neg hline, if_neg hblock, if_pos hword]
        exact ⟨hword, rfl⟩
      · exact absurd h (mark_kind p rest).2

/-- A word begins with a letter or with a quote. -/
theorem is_eq_false_of_startsWord {p : Piece} {rest : Text} (h : startsWord p rest = true)
    {c : Char} (hletter : Text.isLetter c = false) (hquote : c ≠ '\'') : p.is c = false := by
  cases p with
  | stray b => rfl
  | char d =>
    by_cases hd : d = c
    · subst hd
      have hnot : Piece.is '\'' (.char d) = false := by simpa [Piece.is] using hquote
      rw [startsWord, hnot, if_neg (by decide)] at h
      exact absurd (h.symm.trans hletter) (by decide)
    · simpa [Piece.is] using hd

theorem wordLength_le (rest : Text) : wordLength rest ≤ rest.length := by
  induction rest with
  | nil => exact Nat.le_refl 0
  | cons p rest ih =>
    rw [wordLength]
    split
    · exact Nat.succ_le_succ ih
    · exact Nat.zero_le _

end Lexeme

namespace Token

/-- What holds of every lexeme holds of every token. -/
theorem forall_tokensFrom {holds : Token → Prop}
    (h : ∀ p rest offset position,
      holds ⟨(Lexeme.read p rest).kind, (Lexeme.read p rest).literal, offset, position⟩)
    (place : Place) (t : Text) : ∀ token ∈ tokensFrom place t, holds token := by
  induction place, t using tokensFrom.induct with
  | case1 place =>
    rw [tokensFrom]
    intro token htoken
    cases htoken
  | case2 place p rest hblank ih =>
    rw [tokensFrom, if_pos hblank]
    exact ih
  | case3 place p rest hblank lexeme ih =>
    rw [tokensFrom, if_neg hblank, List.forall_mem_cons]
    exact ⟨h p rest _ _, ih⟩

/-- No token of a text is the end token. -/
theorem kind_ne_eof (place : Place) (t : Text) : ∀ token ∈ tokensFrom place t, token.kind ≠ .eof :=
  forall_tokensFrom (fun p rest _ _ => Lexeme.read_ne_eof p rest) place t

/-- No identifier is written as the wildcard. -/
theorem name_ne_wildcard (place : Place) (t : Text) :
    ∀ token ∈ tokensFrom place t, token.kind = .ident → token.name ≠ "_" := by
  refine forall_tokensFrom (fun p rest offset position hkind hname => ?_) place t
  obtain ⟨hstarts, hword⟩ := Lexeme.read_ident hkind
  have hrunes : (Lexeme.read p rest).literal.map Piece.rune = ['_'] := by
    have htext := congrArg String.toList hname
    rw [name, Text.toString, String.toList_ofList] at htext
    exact htext
  have hrune : p.rune = '_' := by
    rw [hword, Lexeme.word, List.map_cons] at hrunes
    exact (List.cons.inj hrunes).1
  cases p with
  | stray b =>
    have hshown : '\uFFFD' = '_' := hrune
    exact absurd hshown (by decide)
  | char c =>
    have hnot := Lexeme.is_eq_false_of_startsWord hstarts (c := '_') (by decide) (by decide)
    rw [show c = '_' from hrune] at hnot
    cases hnot

/-- An identifier is not longer than the text it stands in. -/
theorem length_ident_le (place : Place) (t : Text) :
    ∀ token ∈ tokensFrom place t, token.kind = .ident → token.literal.length ≤ t.length := by
  induction place, t using tokensFrom.induct with
  | case1 place =>
    rw [tokensFrom]
    intro token htoken
    cases htoken
  | case2 place p rest hblank ih =>
    rw [tokensFrom, if_pos hblank]
    intro token htoken hkind
    exact Nat.le_succ_of_le (ih token htoken hkind)
  | case3 place p rest hblank lexeme ih =>
    rw [tokensFrom, if_neg hblank, List.forall_mem_cons]
    refine ⟨fun hkind => ?_, fun token htoken hkind => ?_⟩
    · have hword := (Lexeme.read_ident hkind).2
      have hle := Lexeme.wordLength_le rest
      simp only [hword, Lexeme.word, List.length_cons, List.length_take]
      omega
    · have hle := ih token htoken hkind
      rw [List.length_drop] at hle
      rw [List.length_cons]
      omega

end Token

theorem Text.name_ne_wildcard {t : Text} {n : String} (h : .name n ∈ symbols t) : n ≠ "_" := by
  obtain ⟨token, htoken, hsymbol⟩ := List.mem_map.1 h
  have hmem := (List.mem_filter.1 htoken).1
  rw [Token.symbol] at hsymbol
  split at hsymbol
  · rename_i hkind
    cases hsymbol
    exact Token.name_ne_wildcard _ _ token hmem hkind
  · cases hsymbol
  · cases hsymbol

/-! ## Parsing texts -/

open Grammar

theorem Parser.ofText_sound (t : Text) (file : String) : (Parser.ofText t file).Sound := by
  refine ⟨rfl, fun token htoken => ?_⟩
  exact Token.kind_ne_eof _ _ token (List.mem_filter.1 htoken).1

theorem parseProgram_iff {t : Text} {file : String} {ts : List Term} :
    parseProgram t file = .ok ts ↔ ∃ d : Source, d.symbols = t.dropMark.symbols ∧ d.terms = ts :=
  Parser.readProgram_iff (Parser.ofText_sound t file) rfl

theorem parseExpression_iff {t : Text} {expr : Term} :
    parseExpression t = .ok expr ↔ ∃ (e : Expression) (semicolon : Bool),
      e.symbols ++ semicolons semicolon.toNat = t.dropMark.symbols ∧ e.term = expr :=
  Parser.readExpression_iff (Parser.ofText_sound t "") rfl

/-! ## Words -/

/-- A name that is one word: scanned alone it is an identifier that says all of it, and then the
    text is at its end. -/
def Lexical (n : String) : Prop :=
  ∃ word stop, Token.scan (Text.ofString n) = [word, stop] ∧ word.kind = .ident ∧
    word.literal = Text.ofString n ∧ stop.kind = .eof

namespace Text

/-- What stands behind a word does not go on with it. A hyphen at the end of the word would be
    taken for the beginning of an arrow if `>` came next. -/
def Boundary (rest : Text) : Prop := startsWith (fun p => p.isWordPart || p.is '>') rest = false

theorem toString_ofString (s : String) : (ofString s).toString = s := by
  rw [Text.toString, ofString, List.map_map]
  have hrune : Piece.rune ∘ Piece.char = id := rfl
  rw [hrune, List.map_id, String.ofList_toList]

theorem ofString_append (s s' : String) : ofString (s ++ s') = ofString s ++ ofString s' := by
  rw [ofString, String.toList_append, List.map_append]
  rfl

theorem Boundary.isWordPart {p : Piece} {rest : Text} (h : Boundary (p :: rest)) :
    p.isWordPart = false :=
  (Bool.or_eq_false_iff.1 h).1

theorem Boundary.startsWith_gt {rest : Text} (h : Boundary rest) :
    startsWith (Piece.is '>') rest = false := by
  cases rest with
  | nil => rfl
  | cons p rest => exact (Bool.or_eq_false_iff.1 h).2

/-- What ends a word still ends it in front of a boundary. -/
theorem wordLength_append (cs : Text) {rest : Text} (hrest : Boundary rest) :
    Lexeme.wordLength (cs ++ rest) = Lexeme.wordLength cs := by
  induction cs with
  | nil =>
    cases rest with
    | nil => rfl
    | cons p rest => simp [Lexeme.wordLength, hrest.isWordPart]
  | cons p cs ih =>
    -- What comes behind `p` is the same as before, unless `p` was the last piece.
    have hnext : startsWith (Piece.is '>') (cs ++ rest) = startsWith (Piece.is '>') cs := by
      cases cs with
      | nil => exact hrest.startsWith_gt
      | cons q cs => rfl
    rw [List.cons_append, Lexeme.wordLength, Lexeme.wordLength, hnext, ih]

/-- A word is read to its end. -/
theorem read_word {p : Piece} {cs rest : Text} (hstarts : Lexeme.startsWord p cs = true)
    (hword : Lexeme.wordLength cs = cs.length) (hrest : Boundary rest) :
    p.isBlank = false ∧ Lexeme.read p (cs ++ rest) =
      ⟨if Lexeme.keywords.contains (toString (p :: cs)) then .keyword else .ident, p :: cs,
        cs.length⟩ := by
  have hnot : ∀ c, Text.isLetter c = false → c ≠ '\'' → p.is c = false :=
    fun c hletter hquote => Lexeme.is_eq_false_of_startsWord hstarts hletter hquote
  have hblank : p.isBlank = false := by
    rw [Piece.isBlank, Piece.isSpace, Piece.isNewline, hnot ' ' (by decide) (by decide),
      hnot '\t' (by decide) (by decide), hnot '\n' (by decide) (by decide),
      hnot '\r' (by decide) (by decide)]
    rfl
  have hstarts' : Lexeme.startsWord p (cs ++ rest) = true := by
    rw [Lexeme.startsWord] at hstarts ⊢
    by_cases hquote : p.is '\'' = true
    · rw [if_pos hquote] at hstarts ⊢
      cases cs with
      | nil => cases hstarts
      | cons q cs => exact hstarts
    · rw [if_neg hquote] at hstarts ⊢
      exact hstarts
  refine ⟨hblank, ?_⟩
  rw [Lexeme.read, hnot '-' (by decide) (by decide), hnot '{' (by decide) (by decide),
    Bool.false_and, Bool.false_and, if_neg (by decide), if_neg (by decide), if_pos hstarts',
    Lexeme.word, wordLength_append cs hrest, hword, List.take_left]

theorem symbols_word {p : Piece} {cs rest : Text} (hstarts : Lexeme.startsWord p cs = true)
    (hword : Lexeme.wordLength cs = cs.length) (hrest : Boundary rest) :
    symbols (p :: cs ++ rest) =
      (if Lexeme.keywords.contains (toString (p :: cs)) then .keyword (toString (p :: cs))
        else .name (toString (p :: cs))) :: symbols rest := by
  obtain ⟨hblank, hread⟩ := read_word hstarts hword hrest
  rw [List.cons_append, symbols_cons hblank, hread, List.drop_left]
  split
  · rfl
  · rfl

end Text

theorem Text.dropMark_eq_of_length_le {t : Text} (h : t.length ≤ t.dropMark.length) :
    t.dropMark = t := by
  rcases t with _ | ⟨c | b, rest⟩
  · rfl
  · rw [dropMark] at h ⊢
    split at h
    · rw [List.length_cons] at h
      omega
    · rename_i hmark
      rw [if_neg hmark]
  · rfl

/-- The byte order mark is no letter. -/
theorem isLetter_mark : Text.isLetter '\uFEFF' = false := by decide +kernel

/-- A lexical name is a word all through, and no keyword. -/
theorem Lexical.exists_word {n : String} (h : Lexical n) :
    ∃ p cs, Text.ofString n = p :: cs ∧ Lexeme.startsWord p cs = true ∧
      Lexeme.wordLength cs = cs.length ∧ Lexeme.keywords.contains n = false := by
  obtain ⟨word, stop, hscan, hkind, hliteral, -⟩ := h
  have htokens : Token.tokensFrom .start (Text.ofString n).dropMark = [word] := by
    rw [Token.scan] at hscan
    have hsplit : [word, stop] = [word] ++ [stop] := rfl
    exact (List.append_inj' (hscan.trans hsplit) rfl).1
  -- The word is as long as the name, so no piece of the name is passed over before it.
  have hlength : ∀ place t, Token.tokensFrom place t = [word] →
      (Text.ofString n).length ≤ t.length := by
    intro place t ht
    rw [← hliteral]
    exact Token.length_ident_le place t word (by rw [ht]; exact List.mem_cons_self) hkind
  rw [Text.dropMark_eq_of_length_le (hlength _ _ htokens)] at htokens
  rcases htext : Text.ofString n with _ | ⟨p, cs⟩
  · rw [htext, Token.tokensFrom] at htokens
    cases htokens
  · rw [htext, Token.tokensFrom] at htokens
    split at htokens
    · have hle := hlength _ _ htokens
      rw [htext, List.length_cons] at hle
      omega
    · obtain ⟨rfl, -⟩ := List.cons.inj htokens
      obtain ⟨hstarts, hread⟩ := Lexeme.read_ident hkind
      rw [hread] at hkind hliteral
      have hwhole : cs.take (Lexeme.wordLength cs) = cs := (List.cons.inj (hliteral.trans htext)).2
      have hword : Lexeme.wordLength cs = cs.length := by
        have hle := Lexeme.wordLength_le cs
        have hge := congrArg List.length hwhole
        rw [List.length_take] at hge
        omega
      have hkeyword : Lexeme.keywords.contains n = false := by
        rw [Lexeme.word, hwhole, ← htext, Text.toString_ofString] at hkind
        split at hkind
        · cases hkind
        · rename_i hnot
          exact Bool.eq_false_iff.2 hnot
      exact ⟨p, cs, rfl, hstarts, hword, hkeyword⟩

theorem Lexical.of_word {n : String} {p : Piece} {cs : Text} (htext : Text.ofString n = p :: cs)
    (hstarts : Lexeme.startsWord p cs = true) (hword : Lexeme.wordLength cs = cs.length)
    (hkeyword : Lexeme.keywords.contains n = false) : Lexical n := by
  have hmark : Text.dropMark (p :: cs) = p :: cs := by
    cases p with
    | stray b => rfl
    | char c =>
      have hnot := Lexeme.is_eq_false_of_startsWord hstarts isLetter_mark (by decide)
      rw [Text.dropMark, if_neg]
      rintro rfl
      cases hnot
  obtain ⟨hblank, hread⟩ := Text.read_word hstarts hword (show Text.Boundary [] from rfl)
  have hname : Text.toString (p :: cs) = n := by rw [← htext, Text.toString_ofString]
  rw [List.append_nil, hname, hkeyword] at hread
  have htokens : Token.tokensFrom .start (p :: cs) = [⟨.ident, p :: cs, 0, ⟨1, 1⟩⟩] := by
    rw [Token.tokensFrom, if_neg (by rw [hblank]; decide), hread]
    dsimp only
    rw [List.drop_length, Token.tokensFrom]
    rfl
  refine ⟨⟨.ident, p :: cs, 0, ⟨1, 1⟩⟩, Token.endOf (p :: cs), ?_, rfl, htext.symm, rfl⟩
  rw [Token.scan, htext, hmark, htokens]
  rfl

/-! ## Spelling -/

/-- Wherever a boundary comes behind it, a string is read as some symbols. -/
def Spelled (s : String) (ws : List Symbol) : Prop :=
  ∀ rest, Text.Boundary rest → Text.symbols (Text.ofString s ++ rest) = ws ++ Text.symbols rest

/-- Whatever comes behind it, a string is read as some symbols. -/
def Gap (s : String) (ws : List Symbol) : Prop :=
  ∀ rest, Text.symbols (Text.ofString s ++ rest) = ws ++ Text.symbols rest

/-- A gap that ends the word before it. -/
structure Separator (s : String) (ws : List Symbol) : Prop where
  gap : Gap s ws
  ends : ∀ rest, Text.Boundary (Text.ofString s ++ rest)

theorem Gap.append_spelled {g s : String} {gw ws : List Symbol} (hg : Gap g gw)
    (hs : Spelled s ws) : Spelled (g ++ s) (gw ++ ws) := by
  intro rest hrest
  rw [Text.ofString_append, List.append_assoc, hg, hs rest hrest, List.append_assoc]

theorem Spelled.append_separator {s g : String} {ws gw : List Symbol} (hs : Spelled s ws)
    (hg : Separator g gw) : Gap (s ++ g) (ws ++ gw) := by
  intro rest
  rw [Text.ofString_append, List.append_assoc, hs _ (hg.ends rest), hg.gap, List.append_assoc]

theorem Spelled.symbols_eq {s : String} {ws : List Symbol} (h : Spelled s ws) :
    Text.symbols (Text.ofString s) = ws := by
  have hall := h [] rfl
  rw [List.append_nil, Text.symbols_nil, List.append_nil] at hall
  exact hall

/-- A byte order mark belongs to no symbol of the grammar, so a text without a stray symbol at its
    start has none. -/
theorem Text.dropMark_eq {t : Text} (h : (symbols t).head? ≠ some (.mark .invalid)) :
    t.dropMark = t := by
  rcases t with _ | ⟨c | b, rest⟩
  · rfl
  · rw [dropMark]
    split
    · rename_i hmark
      subst hmark
      have hread : Lexeme.read (.char '\uFEFF') rest = ⟨.invalid, [.char '\uFEFF'], 0⟩ := by
        have hword : Lexeme.startsWord (.char '\uFEFF') rest = false := isLetter_mark
        rw [Lexeme.read, hword]
        rfl
      rw [symbols_cons rfl, hread] at h
      exact absurd rfl h
    · rfl
  · rfl

theorem Lexical.spelled {n : String} (h : Lexical n) : Spelled n [.name n] := by
  obtain ⟨p, cs, htext, hstarts, hword, hkeyword⟩ := h.exists_word
  intro rest hrest
  have hname : Text.toString (p :: cs) = n := by rw [← htext, Text.toString_ofString]
  rw [htext, Text.symbols_word hstarts hword hrest, hname, hkeyword]
  rfl

theorem spelled_wildcard : Spelled "_" [.mark .wildcard] := by
  intro rest hrest
  have hread : Lexeme.read (.char '_') rest = ⟨.wildcard, [.char '_'], 0⟩ := by
    have hpart : Text.startsWith Piece.isWordPart rest = false := by
      cases rest with
      | nil => rfl
      | cons p rest => exact hrest.isWordPart
    show Lexeme.mk (if Text.startsWith Piece.isWordPart rest then .invalid else .wildcard) _ 0 = _
    rw [hpart]
    rfl
  rw [show Text.ofString "_" ++ rest = .char '_' :: rest from rfl, Text.symbols_cons rfl, hread]
  rfl

theorem gap_lparen : Gap "(" [.mark .lparen] := fun _ => Text.symbols_cons rfl

theorem separator_rparen : Separator ")" [.mark .rparen] :=
  ⟨fun _ => Text.symbols_cons rfl, fun _ => rfl⟩

theorem separator_blank : Separator " " [] := ⟨fun _ => Text.symbols_cons_blank rfl, fun _ => rfl⟩

theorem separator_arrow : Separator " -> " [.mark .arrow] := by
  refine ⟨fun rest => ?_, fun _ => rfl⟩
  have hspaced : Text.ofString " -> " ++ rest
      = .char ' ' :: .char '-' :: .char '>' :: .char ' ' :: rest := rfl
  rw [hspaced, Text.symbols_cons_blank rfl, Text.symbols_cons rfl]
  exact congrArg _ (Text.symbols_cons_blank rfl)

/-- A mark with a blank on either side. -/
theorem separator_mark {s : String} {c d : Char} {kind : Token.Kind}
    (hs : Text.ofString s = [.char ' ', .char c, .char d]) (hd : Piece.isBlank (.char d) = true)
    (hc : ∀ rest, Text.symbols (.char c :: rest) = .mark kind :: Text.symbols rest) :
    Separator s [.mark kind] := by
  refine ⟨fun rest => ?_, fun rest => ?_⟩
  · rw [hs]
    show Text.symbols (.char ' ' :: .char c :: .char d :: rest) = _
    rw [Text.symbols_cons_blank rfl, hc, Text.symbols_cons_blank hd]
    rfl
  · rw [hs]
    rfl

theorem separator_pipe : Separator " | " [.mark .pipe] :=
  separator_mark rfl rfl fun _ => Text.symbols_cons rfl

theorem separator_colon : Separator " : " [.mark .colon] :=
  separator_mark rfl rfl fun _ => Text.symbols_cons rfl

theorem separator_assign : Separator " = " [.mark .assign] :=
  separator_mark rfl rfl fun _ => Text.symbols_cons rfl

theorem separator_semicolon : Separator " ;\n" [.mark .semicolon] :=
  separator_mark rfl rfl fun _ => Text.symbols_cons rfl

theorem gap_rule : Gap "> " [.mark .rule] := by
  intro rest
  rw [show Text.ofString "> " ++ rest = .char '>' :: .char ' ' :: rest from rfl,
    Text.symbols_cons rfl]
  exact congrArg _ (Text.symbols_cons_blank rfl)

/-- A keyword with a blank behind it. -/
theorem gap_keyword {s : String} (hs : s ∈ Lexeme.keywords) : Gap (s ++ " ") [.keyword s] := by
  intro rest
  have hword : Text.symbols (Text.ofString s ++ .char ' ' :: rest)
      = .keyword s :: Text.symbols (.char ' ' :: rest) := by
    simp only [Lexeme.keywords, List.mem_cons, List.not_mem_nil, or_false] at hs
    rcases hs with rfl | rfl
    · exact Text.symbols_word rfl rfl rfl
    · exact Text.symbols_word rfl rfl rfl
  have hblank : Text.ofString " " ++ rest = .char ' ' :: rest := rfl
  rw [Text.ofString_append, List.append_assoc, hblank, hword, Text.symbols_cons_blank rfl]
  rfl

/-! ## Joined texts -/

theorem joinWith_cons (separator s : String) (ss : List String) :
    joinWith separator (s :: ss) = s ++ String.join (ss.map (separator ++ ·)) := by
  rw [joinWith]
  induction ss generalizing s with
  | nil => rw [List.foldl_nil, List.map_nil, String.join_nil, String.append_empty]
  | cons s' ss ih =>
    rw [List.foldl_cons, ih, List.map_cons, String.join_cons, String.append_assoc,
      String.append_assoc, String.append_assoc]

/-- Texts that are joined by a separator spell what they spell, with what the separator spells
    between them. -/
theorem Separator.joinWith {g s : String} {gw ws : List Symbol} (hg : Separator g gw)
    (hs : Spelled s ws) {α : Type} {text : α → String} {written : α → List Symbol} {xs : List α}
    (h : ∀ x ∈ xs, Spelled (text x) (written x)) :
    Spelled (joinWith g (s :: xs.map text)) (ws ++ xs.flatMap fun x => gw ++ written x) := by
  rw [Clausal.joinWith]
  induction xs generalizing s ws with
  | nil =>
    rw [List.flatMap_nil, List.append_nil]
    exact hs
  | cons x xs ih =>
    rw [List.forall_mem_cons] at h
    have hnext := ih ((hs.append_separator hg).append_spelled h.1) h.2
    rw [List.append_assoc, List.append_assoc, ← List.append_assoc gw] at hnext
    exact hnext

end Clausal
