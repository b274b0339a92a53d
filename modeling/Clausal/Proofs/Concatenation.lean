/-
  Clausal.Proofs.Concatenation

  A text that can be read may be followed by another one, if a semicolon on a line of its own stands
  between them: the whole says what the two say, one after the other.

    * `Lexeme.read_append`: the end of a line ends every lexeme before it that is valid, so a text
      without invalid symbols is cut into the same lexemes (`Text.symbols_append`).
    * `Parser.Source.append_iff`: what follows a derivation and a semicolon is derivable if the
      whole is, and the terms are those of both.
    * `Session.declare_append`: declarations load together if they load in two steps, and they make
      the same session.
-/
import Clausal.Proofs.Scanning
import Clausal.Proofs.Sessions

namespace Clausal

/-! ## Lexemes at the end of a line -/

/-- The end of a line is not looked for, so a test fails there as it fails at the end of a text. -/
theorem Text.startsWith_append (test : Piece → Bool) (htest : test (.char '\n') = false)
    (t rest : Text) : startsWith test (t ++ .char '\n' :: rest) = startsWith test t := by
  cases t with
  | nil => exact htest
  | cons p t => rfl

namespace Lexeme

variable {p : Piece} {t rest : Text}

theorem lineComment_append (t rest : Text) :
    lineComment (t ++ .char '\n' :: rest) = lineComment t ∧
      (lineComment t).extra ≤ t.length + 1 := by
  have hstop : List.takeWhile (fun p => !Piece.isNewline p) (.char '\n' :: rest) = [] := rfl
  have hrun : List.takeWhile (fun p => !Piece.isNewline p) (t ++ .char '\n' :: rest)
      = t.takeWhile fun p => !Piece.isNewline p := by
    rw [List.takeWhile_append, hstop, List.append_nil]
    split
    · rename_i hall
      exact ((List.takeWhile_prefix _).eq_of_length hall).symm
    · rfl
  refine ⟨by rw [lineComment, hrun, lineComment], ?_⟩
  exact Nat.succ_le_succ (List.takeWhile_prefix _).length_le

/-- A comment that is closed is closed at the same place whatever comes behind. -/
theorem closeAt?_append_eq {n m : Nat} (h : closeAt? n t = some m) (rest : Text) :
    closeAt? n (t ++ rest) = some m := by
  induction t generalizing n with
  | nil => cases h
  | cons p t ih =>
    rw [closeAt?] at h
    split at h
    · rename_i hclose
      -- Both braces stand in the text already.
      have hlonger : (p.is '}' && Text.startsWith (Piece.is '}') (t ++ rest)) = true :=
        closes_iff.2 ((closes_iff.1 hclose).trans (List.prefix_append (p :: t) rest))
      rw [List.cons_append, closeAt?, if_pos hlonger, h]
    · rename_i hclose
      have hnext := ih h
      have hlonger : ¬ (p.is '}' && Text.startsWith (Piece.is '}') (t ++ rest)) = true := by
        cases t with
        | nil => cases h
        | cons q t => exact hclose
      rw [List.cons_append, closeAt?, if_neg hlonger, hnext]

theorem blockComment_append_eq (h : (blockComment t).kind ≠ .invalid) (rest : Text) :
    blockComment (t ++ rest) = blockComment t ∧ (blockComment t).extra ≤ t.length + 1 := by
  cases hclose : closeAt? 0 t with
  | none =>
    rw [blockComment, hclose] at h
    exact absurd rfl h
  | some n =>
    have hlength : n + 2 ≤ t.length := by
      obtain ⟨body, after, rfl, rfl, -⟩ := closeAt?_eq_some hclose
      simp only [List.length_append, Text.closing, List.length_cons, List.length_nil]
      omega
    have htake : (t ++ rest).take n = t.take n := List.take_append_of_le_length (by omega)
    rw [blockComment, blockComment, closeAt?_append_eq hclose, hclose]
    exact ⟨by simp only [htake], Nat.succ_le_succ hlength⟩

theorem word_append (p : Piece) (t rest : Text) :
    word p (t ++ .char '\n' :: rest) = word p t ∧ (word p t).extra ≤ t.length := by
  have hlength := wordLength_le t
  have hends : Text.Boundary (.char '\n' :: rest) := rfl
  refine ⟨?_, hlength⟩
  rw [word, Text.wordLength_append t hends, List.take_append_of_le_length hlength, word]

theorem mark_append (p : Piece) (t rest : Text) :
    mark p (t ++ .char '\n' :: rest) = mark p t ∧ (mark p t).extra ≤ t.length := by
  have hpart := Text.startsWith_append Piece.isWordPart rfl t rest
  have hgt := Text.startsWith_append (Piece.is '>') rfl t rest
  unfold mark
  split
  · exact ⟨by rw [hpart], Nat.zero_le _⟩
  · rw [hgt]
    refine ⟨rfl, ?_⟩
    -- Only an arrow takes a second piece, and that piece stands in the text.
    split
    · rename_i harrow
      rw [Text.startsWith_is harrow]
      exact Nat.succ_le_succ (Nat.zero_le _)
    · exact Nat.zero_le _
  all_goals exact ⟨rfl, Nat.zero_le _⟩

/-- A valid lexeme ends where its line ends, or before. -/
theorem read_append (h : (read p t).kind ≠ .invalid) (rest : Text) :
    read p (t ++ .char '\n' :: rest) = read p t ∧ (read p t).extra ≤ t.length := by
  have hhyphen := Text.startsWith_append (Piece.is '-') rfl t rest
  have hbrace := Text.startsWith_append (Piece.is '{') rfl t rest
  have hletter := Text.startsWith_append Piece.isLetter (by decide) t rest
  have hword : startsWord p (t ++ .char '\n' :: rest) = startsWord p t := by
    rw [startsWord, hletter, startsWord]
  rw [read, hhyphen, hbrace, hword]
  rw [read] at h ⊢
  split at h
  · rename_i hline
    have ht := Text.startsWith_is (Bool.and_eq_true_iff.1 hline).2
    rw [if_pos hline, if_pos hline, ht]
    exact lineComment_append t.tail rest
  · rename_i hline
    rw [if_neg hline, if_neg hline]
    split at h
    · rename_i hblock
      have ht := Text.startsWith_is (Bool.and_eq_true_iff.1 hblock).2
      rw [if_pos hblock, if_pos hblock]
      rw [ht] at h ⊢
      exact blockComment_append_eq h _
    · rename_i hblock
      rw [if_neg hblock, if_neg hblock]
      split
      · exact word_append p t rest
      · exact mark_append p t rest

end Lexeme

namespace Text

theorem symbolOf_eq_invalid {lexeme : Lexeme} (h : lexeme.kind = .invalid) :
    symbolOf lexeme = .mark .invalid := by
  simp only [symbolOf, Token.symbol, h]

/-- Behind a text without invalid symbols and the end of its line, reading starts anew. -/
theorem symbols_append {t : Text} (h : .mark .invalid ∉ symbols t) (rest : Text) :
    symbols (t ++ .char '\n' :: rest) = symbols t ++ symbols rest := by
  -- The induction is the one that cuts the text into tokens; places do not matter to it.
  suffices hall : ∀ place : Place,
      symbols (t ++ .char '\n' :: rest) = symbols t ++ symbols rest from hall .start
  intro place
  induction place, t using Token.tokensFrom.induct with
  | case1 place =>
    rw [List.nil_append, symbols_cons_blank rfl, symbols_nil, List.nil_append]
  | case2 place p t hblank ih =>
    rw [symbols_cons_blank hblank] at h
    rw [List.cons_append, symbols_cons_blank hblank, symbols_cons_blank hblank]
    exact ih h
  | case3 place p t hblank lexeme ih =>
    have hblank : p.isBlank = false := Bool.eq_false_iff.2 hblank
    rw [symbols_cons hblank, List.mem_append, not_or] at h
    have hvalid : (Lexeme.read p t).kind ≠ .invalid := by
      intro hkind
      have hfirst := h.1
      rw [if_neg (by rw [hkind]; decide), symbolOf_eq_invalid hkind] at hfirst
      exact hfirst (List.mem_singleton_self _)
    obtain ⟨hread, hextra⟩ := Lexeme.read_append hvalid rest
    rw [List.cons_append, symbols_cons hblank, symbols_cons hblank, hread,
      List.drop_append_of_le_length hextra, ih h.2, List.append_assoc]

end Text

/-! ## Derivations behind one another -/

namespace Grammar

/-- No rule of the grammar derives an invalid symbol. -/
theorem expressions_valid : (∀ f : Factor, .mark .invalid ∉ f.symbols) ∧
    (∀ p : Phrase, .mark .invalid ∉ p.symbols) ∧
      ∀ e : Expression, .mark .invalid ∉ e.symbols := by
  apply inductionOn
  · intro n
    simp [Factor.symbols]
  · intro e he
    simp [Factor.symbols, he]
  · intro f fs hf hfs
    simpa [Phrase.symbols, hf] using hfs
  · intro p ps hp hps
    simpa [Expression.symbols, hp] using hps

theorem Parameter.valid (x : Parameter) : .mark .invalid ∉ x.symbols := by
  cases x with
  | wildcard => simp [Parameter.symbols]
  | name n => simp [Parameter.symbols]
  | paren e => simp [Parameter.symbols, expressions_valid.2.2 e]

theorem Constructor.valid (c : Constructor) : .mark .invalid ∉ c.symbols := by
  simp [Constructor.symbols, expressions_valid.1]

theorem Statement.valid (s : Statement) : .mark .invalid ∉ s.symbols := by
  cases s with
  | datatype n params cs =>
    cases cs <;> simp [Statement.symbols, constructorSymbols, Constructor.valid]
  | builtin n type => simp [Statement.symbols, expressions_valid.2.2 type]
  | signature n type => simp [Statement.symbols, expressions_valid.2.2 type]
  | clause n first more body =>
    simp [Statement.symbols, Parameter.valid, expressions_valid.2.2 body]

theorem semicolons_valid (n : Nat) : .mark .invalid ∉ semicolons n := by
  intro h
  cases List.eq_of_mem_replicate h

theorem Source.valid (d : Source) : .mark .invalid ∉ d.symbols := by
  cases d with
  | empty n => exact semicolons_valid n
  | of leading first more trailing =>
    simp [Source.symbols, separated, semicolons_valid, Statement.valid]

end Grammar

namespace Parser

open Grammar

/-- Induction on a text from its start: a semicolon or a statement is taken off at a time. -/
theorem Source.inductionOn {motive : Source → Prop} (d : Source) (nothing : motive (.empty 0))
    (delayed : ∀ d, motive d → motive (Source.delayed d)) (single : ∀ s, motive (.of 0 s [] 0))
    (after : ∀ s d, motive d → motive (Source.after s d)) : motive d := by
  induction hn : d.symbols.length using Nat.strongRecOn generalizing d with
  | _ n ih =>
    obtain rfl | ⟨d, rfl⟩ | ⟨s, rfl⟩ | ⟨s, d, rfl⟩ := Source.exists_eq d
    · exact nothing
    · refine delayed d (ih _ ?_ d rfl)
      rw [Source.delayed_symbols, List.length_cons] at hn
      omega
    · exact single s
    · refine after s d (ih _ ?_ d rfl)
      rw [Source.after_symbols, List.length_append, List.length_cons] at hn
      omega

/-- Two texts with a semicolon between them are one text. -/
theorem Source.exists_append (d d' : Source) : ∃ e : Source,
    e.symbols = d.symbols ++ .mark .semicolon :: d'.symbols ∧ e.terms = d.terms ++ d'.terms := by
  induction d using Source.inductionOn with
  | nothing => exact ⟨Source.delayed d', Source.delayed_symbols d', Source.delayed_terms d'⟩
  | delayed d ih =>
    obtain ⟨e, hsymbols, hterms⟩ := ih
    exact ⟨Source.delayed e, by simp [hsymbols], by simp [hterms]⟩
  | single s =>
    refine ⟨Source.after s d', ?_, Source.after_terms s d'⟩
    rw [Source.after_symbols, show (Source.of 0 s [] 0).symbols = s.symbols from List.append_nil _]
  | after s d ih =>
    obtain ⟨e, hsymbols, hterms⟩ := ih
    exact ⟨Source.after s e, by simp [hsymbols], by simp [hterms]⟩

/-- What stands behind a leading semicolon is a text. -/
theorem Source.behind_semicolon {e : Source} {ws : List Symbol}
    (h : e.symbols = .mark .semicolon :: ws) : ∃ d' : Source, d'.symbols = ws := by
  -- No statement begins with a semicolon.
  have hnot : ∀ (s : Statement) r, s.symbols ++ r ≠ .mark .semicolon :: ws := by
    intro s r heq
    have hfirst := s.not_semicolon r
    rw [heq] at hfirst
    cases hfirst
  obtain rfl | ⟨d, rfl⟩ | ⟨s, rfl⟩ | ⟨s, d, rfl⟩ := Source.exists_eq e
  · cases h
  · rw [Source.delayed_symbols] at h
    exact ⟨d, (List.cons.inj h).2⟩
  · exact absurd h (hnot s _)
  · rw [Source.after_symbols] at h
    exact absurd h (hnot s _)

theorem semicolon_ended (ws : List Symbol) : Ended (.mark .semicolon :: ws) := rfl

/-- What stands behind a statement and its semicolon is a text. -/
theorem Source.behind_statement {e : Source} {s : Statement} {ws : List Symbol}
    (h : e.symbols = s.symbols ++ .mark .semicolon :: ws) : ∃ d' : Source, d'.symbols = ws := by
  obtain rfl | ⟨d, rfl⟩ | ⟨s', rfl⟩ | ⟨s', d, rfl⟩ := Source.exists_eq e
  · cases s <;> cases h
  · have hfirst := s.not_semicolon (.mark .semicolon :: ws)
    rw [← h, Source.delayed_symbols] at hfirst
    cases hfirst
  · -- A statement ends where its semicolon stands, so the whole begins with this statement.
    have hnone : Ended [] := rfl
    obtain ⟨-, hend⟩ := s'.cuts s [] (.mark .semicolon :: ws) hnone (semicolon_ended ws) h
    cases hend
  · rw [Source.after_symbols] at h
    obtain ⟨-, hend⟩ := s'.cuts s _ _ (semicolon_ended d.symbols) (semicolon_ended ws) h
    exact ⟨d, (List.cons.inj hend).2⟩

/-- What stands behind a text and a semicolon is a text, if the whole is one. -/
theorem Source.behind (d : Source) {e : Source} {ws : List Symbol}
    (h : e.symbols = d.symbols ++ .mark .semicolon :: ws) : ∃ d' : Source, d'.symbols = ws := by
  induction d using Source.inductionOn generalizing e with
  | nothing => exact behind_semicolon h
  | delayed d ih =>
    rw [Source.delayed_symbols] at h
    obtain ⟨e', he'⟩ := behind_semicolon h
    exact ih he'
  | single s =>
    rw [show (Source.of 0 s [] 0).symbols = s.symbols from List.append_nil _] at h
    exact behind_statement h
  | after s d ih =>
    rw [Source.after_symbols, List.append_assoc] at h
    obtain ⟨e', he'⟩ := behind_statement h
    exact ih he'

theorem Source.append_iff (d : Source) {ws : List Symbol} {ts : List Term} :
    (∃ e : Source, e.symbols = d.symbols ++ .mark .semicolon :: ws ∧ e.terms = ts) ↔
      ∃ d' : Source, d'.symbols = ws ∧ ts = d.terms ++ d'.terms := by
  constructor
  · rintro ⟨e, he, rfl⟩
    obtain ⟨d', rfl⟩ := Source.behind d he
    obtain ⟨e', hsymbols, hterms⟩ := Source.exists_append d d'
    -- The whole has only one derivation.
    obtain rfl : e = e' := Source.symbols_injective (he.trans hsymbols.symm)
    exact ⟨d', rfl, hterms⟩
  · rintro ⟨d', rfl, rfl⟩
    exact Source.exists_append d d'

end Parser

/-! ## Texts behind one another -/

namespace Text

/-- What stands between two texts: a line with a semicolon. -/
def seam : Text := [.char '\n', .char ';', .char '\n']

/-- The bytes of a seam. -/
def seamBytes : List UInt8 := [0x0A, 0x3B, 0x0A]

theorem dropMark_append_seam (t rest : Text) :
    (t ++ seam ++ rest).dropMark = t.dropMark ++ seam ++ rest := by
  rcases t with _ | ⟨c | b, t⟩
  · rfl
  · rw [List.cons_append, List.cons_append, dropMark, dropMark]
    split <;> rfl
  · rfl

theorem symbols_append_seam {t : Text} (h : .mark .invalid ∉ symbols t) (rest : Text) :
    symbols (t ++ seam ++ rest) = symbols t ++ .mark .semicolon :: symbols rest := by
  have hseam : t ++ seam ++ rest = t ++ .char '\n' :: .char ';' :: .char '\n' :: rest := by
    rw [List.append_assoc]
    rfl
  rw [hseam, symbols_append h, symbols_cons rfl]
  exact congrArg _ (congrArg _ (symbols_cons_blank rfl))

theorem ofBytes_append_seam (first second : List UInt8) :
    ofBytes (first ++ seamBytes ++ second) = ofBytes first ++ seam ++ ofBytes second := by
  have hlow : ∀ x ∈ (seamBytes ++ second).head?, x < 0x80 := by simp [seamBytes]
  have hseam : ofBytes (seamBytes ++ second) = seam ++ ofBytes second :=
    ofBytes_ofString_append "\n;\n" second
  rw [List.append_assoc, ofBytes_append_low first hlow, hseam, List.append_assoc]

theorem dropMark_ofBytes_eq {bs : List UInt8} (h : ¬ [0xEF, 0xBB, 0xBF] <+: bs) :
    (ofBytes bs).dropMark = ofBytes bs := by
  rw [dropMark_ofBytes]
  unfold cutMark
  split
  · rename_i rest
    exact absurd (List.prefix_append [0xEF, 0xBB, 0xBF] rest) h
  · rfl

theorem dropMark_eq_of_head? {t : Text} (h : t.head? ≠ some (.char '\uFEFF')) : t.dropMark = t := by
  rcases t with _ | ⟨c | b, t⟩
  · rfl
  · rw [dropMark, if_neg]
    rintro rfl
    exact h rfl
  · rfl

end Text

open Text (ofBytes seam seamBytes)

/-- Behind a text that can be read and a seam, the whole can be read if what follows can. -/
theorem parseProgram_append {t rest : Text} {file : String} {ts : List Term}
    (h : parseProgram t file = .ok ts) (hmark : rest.dropMark = rest) {file' : String}
    {whole : List Term} : parseProgram (t ++ seam ++ rest) file' = .ok whole ↔
      ∃ more, parseProgram rest file' = .ok more ∧ whole = ts ++ more := by
  obtain ⟨d, hd, rfl⟩ := parseProgram_iff.1 h
  have hvalid : .mark .invalid ∉ t.dropMark.symbols := hd ▸ d.valid
  have hsymbols : (t ++ seam ++ rest).dropMark.symbols
      = d.symbols ++ .mark .semicolon :: rest.symbols := by
    rw [Text.dropMark_append_seam, Text.symbols_append_seam hvalid, hd]
  rw [parseProgram_iff, hsymbols, Parser.Source.append_iff]
  constructor
  · rintro ⟨d', hd', rfl⟩
    exact ⟨d'.terms, parseProgram_iff.2 ⟨d', by rw [hd', hmark], rfl⟩, rfl⟩
  · rintro ⟨more, hmore, rfl⟩
    obtain ⟨d', hd', rfl⟩ := parseProgram_iff.1 hmore
    exact ⟨d', by rw [hd', hmark], rfl⟩

/-! ## Lines behind one another -/

namespace Session

variable {s s' : Session}

/-- Declaring is loading what there is and what is added; the result has declared both. -/
theorem declare_eq_ok_iff {ds : List Term} : s.declare ds = .ok s' ↔
    ∃ p, Program.load s.config.linear (s.declarations ++ ds) = .ok p ∧
      s' = ⟨s.config, s.declarations ++ ds, p⟩ :=
  start_eq_ok_iff

/-- Declarations can be made at once if they can be made in two steps. -/
theorem declare_append {ds es : List Term} : s.declare (ds ++ es) = .ok s' ↔
    ∃ m, s.declare ds = .ok m ∧ m.declare es = .ok s' := by
  simp only [declare_eq_ok_iff]
  constructor
  · rintro ⟨p, hp, rfl⟩
    rw [← List.append_assoc] at hp ⊢
    -- What loads as a whole loads up to any point.
    cases hfirst : Program.load s.config.linear (s.declarations ++ ds) with
    | error e =>
      rw [Program.load] at hfirst
      rw [Program.load, List.foldlM_append, hfirst] at hp
      cases hp
    | ok q => exact ⟨_, ⟨q, rfl, rfl⟩, p, hp, rfl⟩
  · rintro ⟨_, ⟨q, -, rfl⟩, p, hp, rfl⟩
    rw [List.append_assoc] at hp ⊢
    exact ⟨p, hp, rfl⟩

/-- The session after some lines that it takes for declarations and accepts, all of them. -/
def feed (s : Session) : List Given → Option Session
  | [] => some s
  | g :: rest => if Accepted g (s.reply g) then (s.reply g).session.feed rest else none

theorem feed_cons_eq_some_iff {g : Given} {rest : List Given} :
    s.feed (g :: rest) = some s' ↔ g.route = .declaration ∧
      ∃ ds m, parseProgram g.line.trim "" = .ok ds ∧ s.declare ds = .ok m ∧
        m.feed rest = some s' := by
  have hfeed : s.feed (g :: rest) = some s' ↔ Accepted g (s.reply g) ∧
      (s.reply g).session.feed rest = some s' := by
    simp [feed]
  rw [hfeed]
  constructor
  · rintro ⟨⟨hroute, hnone⟩, hrest⟩
    refine ⟨hroute, ?_⟩
    rw [reply_eq, hroute] at hnone hrest
    simp only [declareLine] at hnone hrest
    cases hparse : parseProgram g.line.trim "" with
    | error e =>
      rw [hparse] at hnone
      cases hnone
    | ok ds =>
      cases hdeclare : s.declare ds with
      | error e =>
        simp only [hparse, hdeclare] at hnone
        cases hnone
      | ok m =>
        simp only [hparse, hdeclare] at hrest
        exact ⟨ds, m, rfl, hdeclare, hrest⟩
  · rintro ⟨hroute, ds, m, hparse, hdeclare, hrest⟩
    have hreply : s.reply g = m.prints g.signal "" := by
      rw [reply_eq, hroute]
      simp only [declareLine, hparse, hdeclare]
    rw [hreply]
    exact ⟨⟨hroute, rfl⟩, hrest⟩

/-- The text of a file that is put together of some lines, without the blanks at their ends. -/
def fileOf (given : List Given) : Text := seam.intercalate (given.map (·.line.trim))

theorem fileOf_cons_cons (g g' : Given) (rest : List Given) :
    fileOf (g :: g' :: rest) = g.line.trim ++ seam ++ fileOf (g' :: rest) :=
  List.intercalate_cons_cons

theorem dropMark_fileOf {g : Given} (hmark : g.line.trim.head? ≠ some (.char '\uFEFF'))
    (rest : List Given) : (fileOf (g :: rest)).dropMark = fileOf (g :: rest) := by
  have hg := Text.dropMark_eq_of_head? hmark
  cases rest with
  | nil =>
    rw [fileOf, List.map_cons, List.map_nil, List.intercalate_singleton]
    exact hg
  | cons g' rest => rw [fileOf_cons_cons, Text.dropMark_append_seam, hg]

/-- Lines are taken one by one if their file can be read and loads. -/
theorem feed_eq_some_iff {g : Given} {rest : List Given} {file : String}
    (hread : ∀ x ∈ (g :: rest).dropLast, ∃ ds, parseProgram x.line.trim "" = .ok ds)
    (hmark : ∀ x ∈ rest, x.line.trim.head? ≠ some (.char '\uFEFF')) :
    s.feed (g :: rest) = some s' ↔ (∀ x ∈ g :: rest, x.route = .declaration) ∧
      ∃ ds, parseProgram (fileOf (g :: rest)) file = .ok ds ∧ s.declare ds = .ok s' := by
  induction rest generalizing g s with
  | nil =>
    have hfile : fileOf [g] = g.line.trim := List.intercalate_singleton
    -- The name of a file shows in errors only.
    have hname (ds : List Term) :
        parseProgram g.line.trim file = .ok ds ↔ parseProgram g.line.trim "" = .ok ds :=
      parseProgram_iff.trans parseProgram_iff.symm
    rw [feed_cons_eq_some_iff]
    simp [hfile, hname, feed]
  | cons g' rest ih =>
    rw [List.dropLast_cons_cons, List.forall_mem_cons] at hread
    rw [List.forall_mem_cons] at hmark
    obtain ⟨⟨first, hfirst⟩, hread⟩ := hread
    have hwhole (ds : List Term) :
        parseProgram (g.line.trim ++ seam ++ fileOf (g' :: rest)) file = .ok ds ↔
          ∃ more, parseProgram (fileOf (g' :: rest)) file = .ok more ∧ ds = first ++ more :=
      parseProgram_append hfirst (dropMark_fileOf hmark.1 rest)
    rw [feed_cons_eq_some_iff, fileOf_cons_cons, List.forall_mem_cons]
    simp only [ih hread hmark.2, hwhole, hfirst]
    constructor
    · rintro ⟨hroute, ds, m, hds, hm, hroutes, more, hmore, hs'⟩
      cases hds
      exact ⟨⟨hroute, hroutes⟩, _, ⟨more, hmore, rfl⟩, declare_append.2 ⟨m, hm, hs'⟩⟩
    · rintro ⟨⟨hroute, hroutes⟩, _, ⟨more, hmore, rfl⟩, hs'⟩
      obtain ⟨m, hm, hs'⟩ := declare_append.1 hs'
      exact ⟨hroute, first, m, rfl, hm, hroutes, more, hmore, hs'⟩

/-- **Reading is a homomorphism for concatenation.** Let a text be read as some declarations, and
    put a line with a semicolon behind it and then any text without a byte order mark. The whole can
    be read if and only if the second text can, and then as the declarations of both, in order. So a
    session takes some lines, one after the other, if and only if each is taken for a declaration
    and the file that is put together of them can be read and loads as a whole; and what it has
    declared and loaded then is what the file declares. -/
theorem parse_concat_iff :
    (∀ (first second : List UInt8) (file : String) (ts : List Term),
      parseProgram (ofBytes first) file = .ok ts → ¬ [0xEF, 0xBB, 0xBF] <+: second →
        ∀ (file' : String) (whole : List Term),
          parseProgram (ofBytes (first ++ seamBytes ++ second)) file' = .ok whole ↔
            ∃ more, parseProgram (ofBytes second) file' = .ok more ∧ whole = ts ++ more) ∧
      ∀ (g : Given) (rest : List Given),
        (∀ x ∈ (g :: rest).dropLast, ∃ ds, parseProgram x.line.trim "" = .ok ds) →
        (∀ x ∈ rest, x.line.trim.head? ≠ some (.char '\uFEFF')) →
          ∀ (file : String) (s s' : Session), s.feed (g :: rest) = some s' ↔
            (∀ x ∈ g :: rest, x.route = .declaration) ∧
              ∃ ds, parseProgram (fileOf (g :: rest)) file = .ok ds ∧ s.declare ds = .ok s' := by
  refine ⟨fun first second file ts hfirst hmark file' whole => ?_,
    fun g rest hread hmark file s s' => feed_eq_some_iff hread hmark⟩
  rw [Text.ofBytes_append_seam]
  exact parseProgram_append hfirst (Text.dropMark_ofBytes_eq hmark)

/-- The text `> f- _ = 'x --` and a byte that begins a character of two bytes. -/
def cutComment : List UInt8 := (Text.ofString "> f- _ = 'x --").toBytes ++ [0xC3]

/-- The text `f- : a-`, which ends within a word. -/
def hyphenSignature : List UInt8 := (Text.ofString "f- : a-").toBytes

def cutDeclaration : Term := .define (.app [.ident "f-", .ident "_"]) (.ident "'x")

def hyphenDeclaration : Term := .isa (.ident "f-") (.ident "a-")

/-- The comment ends with its line although its last character is cut off, and the first line of the
    seam does not go on with it. The two texts are taken as lines as well. -/
theorem parse_concat_iff_truncated :
    parseProgram (ofBytes (cutComment ++ seamBytes ++ hyphenSignature)) "whole"
        = .ok [cutDeclaration, hyphenDeclaration] ∧
      ∃ s s' : Session, start .standard [] = .ok s ∧
        s.feed [⟨ofBytes cutComment, false, .quiet⟩, ⟨ofBytes hyphenSignature, true, ⟨true, 0⟩⟩]
          = some s' ∧
        start .standard [cutDeclaration, hyphenDeclaration] = .ok s' := by
  have hfirst : parseProgram (ofBytes cutComment) "" = .ok [cutDeclaration] := by decide +kernel
  have hsecond : parseProgram (ofBytes hyphenSignature) "whole" = .ok [hyphenDeclaration] := by
    decide +kernel
  have hwhole := (parse_concat_iff.1 cutComment hyphenSignature "" _ hfirst (by decide) "whole" _).2
    ⟨_, hsecond, rfl⟩
  obtain ⟨s', hstart⟩ : ∃ s', start .standard [cutDeclaration, hyphenDeclaration] = .ok s' :=
    ⟨_, rfl⟩
  have hdeclare : (⟨.standard, [], .empty⟩ : Session).declare [cutDeclaration, hyphenDeclaration]
      = .ok s' := hstart
  refine ⟨hwhole, _, s', rfl, (parse_concat_iff.2 _ _ ?_ ?_ "whole" _ _).2
    ⟨?_, [cutDeclaration, hyphenDeclaration], ?_, hdeclare⟩, hstart⟩
  · have hline : parseProgram (ofBytes cutComment).trim "" = .ok [cutDeclaration] := by
      decide +kernel
    rw [List.dropLast_cons_cons, List.dropLast_singleton, List.forall_mem_singleton]
    exact ⟨_, hline⟩
  · decide +kernel
  · decide +kernel
  · decide +kernel

end Session

end Clausal
