/-
  Clausal.Token.Lexer

  Cuts a text into tokens. At each piece that is not blank, `Lexeme.read` says what kind of
  lexeme begins there, what it says and how many further pieces it takes; `tokensFrom` walks
  on behind it. So a token always takes the piece it begins with, and the walk ends.

  The minus sign is an identifier character, the start of an arrow and the start of a line
  comment. Inside an identifier it ends the word only before `>`; two of them open a comment
  only where a token can begin.
-/
import Clausal.Text.Blank
import Clausal.Text.Letter
import Clausal.Text.Quoted
import Clausal.Token.Basic

namespace Clausal

namespace Piece

def isSpace (p : Piece) : Bool := p.is ' ' || p.is '\t'

def isNewline (p : Piece) : Bool := p.is '\n' || p.is '\r'

def isBlank (p : Piece) : Bool := p.isSpace || p.isNewline

def isLetter (p : Piece) : Bool := Text.isLetter p.rune

def isDigit (p : Piece) : Bool := '0' ≤ p.rune && p.rune ≤ '9'

/-- What an identifier may hold after its first letter. -/
def isWordPart (p : Piece) : Bool := p.isLetter || p.isDigit || p.is '_' || p.is '-'

end Piece

/-- Whether a text begins with a piece that satisfies `test`. -/
def Text.startsWith (test : Piece → Bool) : Text → Bool
  | p :: _ => test p
  | [] => false

/-! ## Lexemes -/

/-- A lexeme: its kind, what it says, and how many pieces it takes after its first one. -/
structure Lexeme where
  kind : Token.Kind
  literal : Text
  extra : Nat
  deriving DecidableEq, Repr

namespace Lexeme

/-- A comment that runs to the end of its line. `body` is the text after the two minus
    signs; the blanks it begins with are not part of what the comment says. -/
def lineComment (body : Text) : Lexeme :=
  let run := body.takeWhile (fun p => !p.isNewline)
  { kind := .comment
    literal := (run.dropWhile Piece.isSpace).map Piece.settle
    -- The second hyphen is the one piece more.
    extra := run.length + 1 }

/-- How many pieces stand before the first pair of closing braces, counted from `n`. -/
def closeAt? (n : Nat) : Text → Option Nat
  | [] => none
  | p :: rest =>
    if p.is '}' && Text.startsWith (Piece.is '}') rest then some n else closeAt? (n + 1) rest

/-- A comment between pairs of braces. `body` is the text after the opening pair. Without a
    closing pair it runs to the end of the text and is invalid. -/
def blockComment (body : Text) : Lexeme :=
  match closeAt? 0 body with
  | some n =>
    { kind := .comment
      literal := Text.trim ((body.take n).map Piece.settle)
      -- Besides the body there are the second opening brace and both closing ones.
      extra := n + 3 }
  | none =>
    { kind := .invalid
      literal := Text.trim (body.map Piece.settle)
      extra := body.length + 1 }

/-- How many pieces at the start of a text continue an identifier. -/
def wordLength : Text → Nat
  | [] => 0
  | p :: rest =>
    -- A hyphen belongs to the word unless it begins an arrow.
    if p.isWordPart && !(p.is '-' && Text.startsWith (Piece.is '>') rest) then
      wordLength rest + 1
    else 0

def keywords : List String := ["decltype", "builtin"]

/-- An identifier or a keyword that begins with `p`. -/
def word (p : Piece) (rest : Text) : Lexeme :=
  let literal : Text := p :: rest.take (wordLength rest)
  { kind := if keywords.contains literal.toString then .keyword else .ident
    literal := literal
    extra := wordLength rest }

/-- Punctuation, the wildcard, or a piece that begins nothing. -/
def mark (p : Piece) (rest : Text) : Lexeme :=
  match p with
  | .char '_' =>
    { kind := if Text.startsWith Piece.isWordPart rest then .invalid else .wildcard
      literal := [p]
      extra := 0 }
  | .char '-' =>
    if Text.startsWith (Piece.is '>') rest then ⟨.arrow, [], 1⟩ else ⟨.invalid, [], 0⟩
  | .char '>' => ⟨.rule, [], 0⟩
  | .char ':' => ⟨.colon, [], 0⟩
  | .char '=' => ⟨.assign, [], 0⟩
  | .char '|' => ⟨.pipe, [], 0⟩
  | .char ';' => ⟨.semicolon, [], 0⟩
  | .char '(' => ⟨.lparen, [], 0⟩
  | .char ')' => ⟨.rparen, [], 0⟩
  | p => ⟨.invalid, [p], 0⟩

/-- Whether an identifier begins at `p`: a letter, or a quote before a letter. -/
def startsWord (p : Piece) (rest : Text) : Bool :=
  if p.is '\'' then Text.startsWith Piece.isLetter rest else p.isLetter

/-- The lexeme that begins at `p`, where `rest` is the text behind `p`. -/
def read (p : Piece) (rest : Text) : Lexeme :=
  if p.is '-' && Text.startsWith (Piece.is '-') rest then lineComment rest.tail
  else if p.is '{' && Text.startsWith (Piece.is '{') rest then blockComment rest.tail
  else if startsWord p rest then word p rest
  else mark p rest

end Lexeme

/-! ## Places -/

/-- Where the next piece of a text stands. -/
structure Place where
  offset : Nat
  position : Position
  deriving DecidableEq, Repr

namespace Place

def start : Place := ⟨0, 1, 1⟩

/-- The place behind one more piece. A line feed ends its line. -/
def next (here : Place) (p : Piece) : Place :=
  { offset := here.offset + p.width
    position :=
      if p.is '\n' then ⟨here.position.line + 1, 1⟩
      else ⟨here.position.line, here.position.column + 1⟩ }

def past (here : Place) (t : Text) : Place := t.foldl next here

end Place

/-! ## Tokens of a text -/

namespace Token

/-- The tokens of a text that begins at a given place, without an end token. -/
def tokensFrom (place : Place) (t : Text) : List Token :=
  match t with
  | [] => []
  | p :: rest =>
    if p.isBlank then tokensFrom (place.next p) rest
    else
      let lexeme := Lexeme.read p rest
      ⟨lexeme.kind, lexeme.literal, place.offset, place.position⟩ ::
        tokensFrom ((place.next p).past (rest.take lexeme.extra)) (rest.drop lexeme.extra)
termination_by t.length
decreasing_by all_goals simp; try omega

/-- The end token. It stands where the last piece of the text stands: the end of a text is
    noticed before the position moves on. -/
def endOf (t : Text) : Token :=
  { kind := .eof
    literal := []
    offset := t.size
    position := if t.isEmpty then ⟨1, 0⟩ else (Place.start.past t.dropLast).position }

/-- All tokens of a text, comments included, and the end token. A byte order mark at the
    start is no part of the text. -/
def scan (t : Text) : List Token :=
  tokensFrom .start t.dropMark ++ [endOf t.dropMark]

/-! ## Listing tokens -/

/-- The listing of tokens up to the first invalid one or the end, a line for each, and the
    complaint about the invalid one. -/
def listing : List Token → Text × Option Text
  | [] => ([], none)
  | t :: rest =>
    match t.kind with
    | .eof => ([], none)
    | .invalid =>
      ([], some (Text.ofString (t.position.describe ++ ": invalid token " ++ t.literal.quote)))
    | _ =>
      let (lines, complaint) := listing rest
      (t.describe ++ Text.ofString "\n" ++ lines, complaint)

end Token

end Clausal
