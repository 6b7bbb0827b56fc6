import Denotation.Text.Decimal
import Denotation.Text.Quoted

/-!
# Tokens

A token of a Simple source has a kind, the text it was read from and the place where it starts.
-/

namespace Denotation

/-- A place in a source: rows and columns count from one, columns in characters. -/
structure Location where
  /-- The label of the source, shown and not opened. -/
  file : Text
  /-- The row. -/
  row : Int
  /-- The column. -/
  col : Int
  deriving DecidableEq, Repr

/-- A location as messages show it. -/
def Location.display (l : Location) : Text :=
  Text.concat [l.file, ":", Text.ofInt l.row, ":", Text.ofInt l.col]

/-- The kinds of token. -/
inductive TokenKind where
  | unknown
  | parenOpen
  | parenClose
  | braceOpen
  | braceClose
  | semicolon
  | name
  | number
  | equals
  | plus
  | star
  | less
  | ending
  deriving DecidableEq, Repr

/-- A kind as messages show it. -/
def TokenKind.display : TokenKind → Text
  | .unknown => "<unknown>"
  | .parenOpen => "open paren"
  | .parenClose => "close paren"
  | .braceOpen => "open brace"
  | .braceClose => "close brace"
  | .semicolon => "semicolon"
  | .name => "name"
  | .number => "number"
  | .equals => "equals sign"
  | .plus => "plus sign"
  | .star => "star"
  | .less => "less-than sign"
  | .ending => "end of input"

/-- The kind of a token that is one character of punctuation. -/
def TokenKind.ofPunctuation? (c : Char) : Option TokenKind :=
  match c with
  | '(' => some .parenOpen
  | ')' => some .parenClose
  | '{' => some .braceOpen
  | '}' => some .braceClose
  | ';' => some .semicolon
  | '=' => some .equals
  | '+' => some .plus
  | '*' => some .star
  | '<' => some .less
  | _ => none

/-- A token. -/
structure Token where
  /-- What the token is. -/
  kind : TokenKind
  /-- The text it was read from, empty at the end of input. -/
  value : Text
  /-- Where it starts. -/
  location : Location
  deriving DecidableEq, Repr

/-- A token as messages show it. -/
def Token.display (t : Token) : Text :=
  Text.concat [t.kind.display, " ", t.value.quote, " at ", t.location.display]

/-- The line that a trace of scanning holds for a token. -/
def Token.traceLine (t : Token) : Text := Text.concat ["TOKEN: [", t.display, "]\n"]

end Denotation
