/-
  Clausal.Token.Basic

  Tokens: what kind a lexeme is, what it says, and where in the text it stands.
-/
import Clausal.Text.Piece

namespace Clausal

/-- A place in a text as people count it. Lines and columns start at one. -/
structure Position where
  line : Nat
  column : Nat
  deriving DecidableEq, Repr, Inhabited

def Position.describe (p : Position) : String := s!"{p.line}:{p.column}"

namespace Token

/-- The kinds of token. `rule` is the mark that opens a clause. -/
inductive Kind where
  | eof
  | comment
  | ident
  | keyword
  | wildcard
  | rule
  | colon
  | arrow
  | assign
  | pipe
  | semicolon
  | lparen
  | rparen
  | invalid
  deriving DecidableEq, Repr, Inhabited

/-- All kinds, in the order of their numbers. -/
def Kind.all : List Kind :=
  [.eof, .comment, .ident, .keyword, .wildcard, .rule, .colon, .arrow, .assign, .pipe,
    .semicolon, .lparen, .rparen, .invalid]

/-- The kind with a given number. Kinds are numbered -1, -2, -3 and so on. -/
def Kind.ofNumber? (n : Int) : Option Kind :=
  if n < 0 then Kind.all[(-n - 1).toNat]? else none

/-- A kind's word followed by what the token says. -/
def labelled (word : String) (literal : Text) : Text :=
  Text.ofString word ++ Text.ofString "(" ++ literal ++ Text.ofString ")"

/-- How a token is named in messages. Punctuation is named by its kind alone. -/
def Kind.describe (kind : Kind) (literal : Text) : Text :=
  match kind with
  | .eof => Text.ofString "<eof>"
  | .wildcard => Text.ofString "<wildcard>"
  | .rule => Text.ofString "<let>"
  | .colon => Text.ofString "<colon>"
  | .arrow => Text.ofString "<arrow>"
  | .assign => Text.ofString "<assign>"
  | .pipe => Text.ofString "<pipe>"
  | .semicolon => Text.ofString "<semicolon>"
  | .lparen => Text.ofString "<lparen>"
  | .rparen => Text.ofString "<rparen>"
  | .keyword => labelled "keyword" literal
  | .comment => labelled "comment" literal
  | .ident => labelled "identifier" literal
  | .invalid => labelled "invalid" literal

/-- How a token is named when only the number of its kind is known. -/
def describeNumber (n : Int) (literal : Text) : Text :=
  match Kind.ofNumber? n with
  | some kind => kind.describe literal
  | none => labelled "unknown" literal

end Token

/-- A token of a text. `offset` counts bytes from the start of the text. -/
structure Token where
  kind : Token.Kind
  literal : Text
  offset : Nat
  position : Position
  deriving DecidableEq, Repr, Inhabited

namespace Token

def describe (t : Token) : Text := t.kind.describe t.literal

/-- What an identifier or a keyword says. -/
def name (t : Token) : String := t.literal.toString

end Token

end Clausal
