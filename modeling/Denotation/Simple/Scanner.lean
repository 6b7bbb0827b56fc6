import Denotation.Simple.Token
import Denotation.Text.Blank
import Denotation.Text.Digit
import Denotation.Text.Letter

/-!
# Scanning

A scanner holds the characters of a source that are still to be read and the place of the first of
them. `Scanner.next` skips white space and comments and reads one token, or reports the character
that starts none; either way the scanner can go on. At the end of the source the scanner stays where
it is, so the end of input is reported again and again.

A source may also end in a failure of whatever it is read from. That failure is reported in place of
the end of input.
-/

namespace Denotation

/-- Why a token could not be read. -/
inductive ScanError where
  /-- The character at the location starts no token. -/
  | unexpected (c : Char) (location : Location)
  /-- The source could not be read any further. -/
  | unreadable (reason : Text)
  deriving DecidableEq, Repr

/-- The text of a scanning error. -/
def ScanError.message : ScanError → Text
  | .unexpected c l => Text.concat ["unexpected rune: ", Text.quoteChar c, " at ", l.display]
  | .unreadable reason => reason

/-- What one step of scanning yields. -/
abbrev ScanResult := Except ScanError Token

/-- What stands after the last character of a source. -/
inductive SourceEnd where
  /-- Nothing: the source was read to its end. -/
  | complete
  /-- A failure, shown as the given text. -/
  | failure (reason : Text)
  deriving DecidableEq, Repr

/-- A row and a column. -/
structure Position where
  /-- The row. -/
  row : Int
  /-- The column. -/
  col : Int
  deriving DecidableEq, Repr

/-- The start of a source. -/
def Position.start : Position := ⟨1, 1⟩

/-- `n` columns further. -/
def Position.right (p : Position) (n : Nat) : Position := ⟨p.row, p.col + n⟩

/-- The start of the next row. -/
def Position.newline (p : Position) : Position := ⟨p.row + 1, 1⟩

/-- Drops white space and comments. Inside a comment, which `inComment` tells, everything up to the
next line break goes; a comment moves the column by one, whatever its length. -/
def skim : Bool → List Char → Position → List Char × Position
  | _, [], p => ([], p)
  | inComment, c :: cs, p =>
    if c == '\n' then skim false cs p.newline
    else if inComment then skim true cs p
    else if Text.isBlank c then skim false cs (p.right 1)
    else if c == '/' && cs.head? == some '/' then skim true cs (p.right 1)
    else (c :: cs, p)

/-- Whether a name may go on with the character. -/
def isNameChar (c : Char) : Bool := Text.isLetter c || Text.isDigit c || c == '-' || c == '_'

/-- A source that is being scanned. -/
structure Scanner where
  /-- The characters still to be read. -/
  rest : List Char
  /-- Where the first of them stands. -/
  position : Position
  /-- The label of the source. -/
  file : Text
  /-- What follows the last character. -/
  ending : SourceEnd
  deriving DecidableEq, Repr

namespace Scanner

/-- A scanner at the start of a source. -/
def ofText (source file : Text) (ending : SourceEnd) : Scanner :=
  ⟨source.chars, Position.start, file, ending⟩

/-- The location of a position in this source. -/
def locate (s : Scanner) (p : Position) : Location := ⟨s.file, p.row, p.col⟩

/-- The result at the end of the source, reached at position `p`. -/
def atEnd (s : Scanner) (p : Position) : ScanResult :=
  match s.ending with
  | .complete => .ok ⟨.ending, [], s.locate p⟩
  | .failure reason => .error (.unreadable reason)

/-- The token of the given kind made of the characters `cs` at `p`, and the scanner after it. -/
def token (s : Scanner) (kind : TokenKind) (p : Position) (cs rest : List Char) :
    ScanResult × Scanner :=
  (.ok ⟨kind, Text.ofChars cs, s.locate p⟩, { s with rest, position := p.right cs.length })

/-- Reads what starts with the character `c`, which is neither white space nor a comment, at `p`.
A slash that starts no comment takes the character after it along. -/
def readAt (s : Scanner) (c : Char) (cs : List Char) (p : Position) : ScanResult × Scanner :=
  if Text.isLetter c then
    s.token .name p (c :: cs.takeWhile isNameChar) (cs.dropWhile isNameChar)
  else if Text.isDigit c then
    s.token .number p (c :: cs.takeWhile Text.isDigit) (cs.dropWhile Text.isDigit)
  else
    match TokenKind.ofPunctuation? c with
    | some kind => s.token kind p [c] cs
    | none =>
      (.error (.unexpected c (s.locate p)),
        { s with rest := if c == '/' then cs.drop 1 else cs, position := p.right 1 })

/-- One step of scanning. -/
def next (s : Scanner) : ScanResult × Scanner :=
  match skim false s.rest s.position with
  | ([], p) => (s.atEnd p, { s with rest := [], position := p })
  | (c :: cs, p) => s.readAt c cs p

end Scanner

/-- Whether scanning is over with this result: every later one is the same. -/
def ScanResult.isLast : ScanResult → Bool
  | .ok t => t.kind == .ending
  | .error (.unexpected ..) => false
  | .error (.unreadable _) => true

/-- The results of at most `n` steps of scanning, up to the first that repeats for ever. -/
def Scanner.results : Nat → Scanner → List ScanResult
  | 0, _ => []
  | n + 1, s =>
    let (r, s) := s.next
    if r.isLast then [r] else r :: Scanner.results n s

/-- The results of scanning to the end. Every step but the last reads a character, so there are at
most one more of them than characters. -/
def Scanner.stream (s : Scanner) : List ScanResult := s.results (s.rest.length + 1)

/-- The trace of a list of results: a line for every token. -/
def Scanner.trace (results : List ScanResult) : Text :=
  results.flatMap fun
    | .ok t => t.traceLine
    | .error _ => []

end Denotation
