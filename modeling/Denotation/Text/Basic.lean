/-!
# Text as bytes

Programs, names and messages are strings of bytes: a variable may carry any bytes at all, so nothing
here assumes well-formed UTF-8. `Text.pieces` reads text character by character and keeps, beside
each character, the bytes it was read from; a byte that starts no well-formed sequence is read alone,
as U+FFFD. The bytes of the pieces concatenate to the text again, which is why cutting at pieces
never changes what is kept.

Encoding and decoding are written with quotients and remainders of code points, so that their laws
are linear arithmetic.
-/

namespace Denotation

/-- A string of bytes. -/
abbrev Text := List UInt8

namespace Text

/-- The UTF-8 encoding of a character. -/
def ofChar (c : Char) : Text :=
  let n := c.toNat
  if n < 0x80 then [UInt8.ofNat n]
  else if n < 0x800 then [UInt8.ofNat (0xC0 + n / 64), UInt8.ofNat (0x80 + n % 64)]
  else if n < 0x10000 then
    [UInt8.ofNat (0xE0 + n / 4096), UInt8.ofNat (0x80 + n / 64 % 64), UInt8.ofNat (0x80 + n % 64)]
  else
    [UInt8.ofNat (0xF0 + n / 262144), UInt8.ofNat (0x80 + n / 4096 % 64),
      UInt8.ofNat (0x80 + n / 64 % 64), UInt8.ofNat (0x80 + n % 64)]

/-- The UTF-8 encoding of a list of characters. -/
def ofChars (cs : List Char) : Text := cs.flatMap ofChar

/-- The UTF-8 encoding of a string. -/
def ofString (s : String) : Text := ofChars s.toList

instance : Coe String Text := ⟨ofString⟩

/-- The character that stands for a byte that starts no well-formed sequence. -/
def replacement : Char := Char.ofNat 0xFFFD

/-- A continuation byte of a longer sequence. -/
def isTail (b : UInt8) : Bool := 0x80 ≤ b.toNat && b.toNat < 0xC0

/-- The character of a two byte sequence. -/
def two? (a b : UInt8) : Option Char :=
  if 0xC2 ≤ a.toNat && a.toNat < 0xE0 && isTail b then
    some (Char.ofNat ((a.toNat - 0xC0) * 64 + (b.toNat - 0x80)))
  else none

/-- The character of a three byte sequence: neither a surrogate nor writable with fewer bytes. -/
def three? (a b c : UInt8) : Option Char :=
  let n := (a.toNat - 0xE0) * 4096 + (b.toNat - 0x80) * 64 + (c.toNat - 0x80)
  if 0xE0 ≤ a.toNat && a.toNat < 0xF0 && isTail b && isTail c && 0x800 ≤ n
      && !(0xD800 ≤ n && n < 0xE000) then
    some (Char.ofNat n)
  else none

/-- The character of a four byte sequence: at most U+10FFFF and not writable with fewer bytes. -/
def four? (a b c d : UInt8) : Option Char :=
  let n := (a.toNat - 0xF0) * 262144 + (b.toNat - 0x80) * 4096 + (c.toNat - 0x80) * 64
    + (d.toNat - 0x80)
  if 0xF0 ≤ a.toNat && a.toNat < 0xF5 && isTail b && isTail c && isTail d && 0x10000 ≤ n
      && n < 0x110000 then
    some (Char.ofNat n)
  else none

/-- A character of a text with the bytes it was read from. -/
structure Piece where
  /-- The character read, U+FFFD for a byte that starts no well-formed sequence. -/
  char : Char
  /-- The bytes read. -/
  bytes : Text
  deriving DecidableEq, Repr

/-- Whether the piece is a single byte that is no character. -/
def Piece.isInvalid (p : Piece) : Bool := p.char == replacement && p.bytes.length == 1

/-- The piece of more than one byte that starts with `a`, if there is one. -/
def long? (a : UInt8) : Text → Option Piece
  | [] => none
  | [b] => (two? a b).map fun ch => ⟨ch, [a, b]⟩
  | [b, c] =>
    ((two? a b).map fun ch => ⟨ch, [a, b]⟩) <|> ((three? a b c).map fun ch => ⟨ch, [a, b, c]⟩)
  | b :: c :: d :: _ =>
    ((two? a b).map fun ch => ⟨ch, [a, b]⟩) <|> ((three? a b c).map fun ch => ⟨ch, [a, b, c]⟩)
      <|> ((four? a b c d).map fun ch => ⟨ch, [a, b, c, d]⟩)

/-- The first piece of the text `a :: rest`. -/
def firstPiece (a : UInt8) (rest : Text) : Piece :=
  if a.toNat < 0x80 then ⟨Char.ofNat a.toNat, [a]⟩ else (long? a rest).getD ⟨replacement, [a]⟩

/-- The pieces of a text whose first `skip` bytes belong to a piece already read. -/
def piecesFrom : Nat → Text → List Piece
  | _, [] => []
  | skip + 1, _ :: rest => piecesFrom skip rest
  | 0, a :: rest =>
    let p := firstPiece a rest
    p :: piecesFrom (p.bytes.length - 1) rest

/-- The characters of a text in order, each with its bytes. -/
def pieces (t : Text) : List Piece := piecesFrom 0 t

/-- The characters of a text, with U+FFFD for every byte that starts no well-formed sequence. -/
def chars (t : Text) : List Char := (pieces t).map Piece.char

/-- The bytes of a list of pieces. -/
def ofPieces (ps : List Piece) : Text := ps.flatMap Piece.bytes

/-- Whether the text is well-formed UTF-8. -/
def isUtf8 (t : Text) : Bool := (pieces t).all fun p => !p.isInvalid

/-- The texts one after the other. -/
def concat (ts : List Text) : Text := ts.flatten

/-- The texts one after the other with `sep` between neighbours. -/
def join (sep : Text) : List Text → Text
  | [] => []
  | [t] => t
  | t :: ts => t ++ sep ++ join sep ts

/-- Lexicographic order of the bytes. -/
def before : Text → Text → Bool
  | _, [] => false
  | [], _ :: _ => true
  | a :: s, b :: t => a < b || (a == b && before s t)

/-- The text after `start`, if it begins with it. -/
def dropStart? : Text → Text → Option Text
  | [], t => some t
  | _ :: _, [] => none
  | a :: start, b :: t => if a == b then dropStart? start t else none

/-- Whether `t` begins with `start`. -/
def startsWith (t start : Text) : Bool := (dropStart? start t).isSome

/-- The parts of a text between the occurrences of a byte; one more than there are occurrences. -/
def splitOn (sep : UInt8) : Text → List Text
  | [] => [[]]
  | a :: t =>
    match splitOn sep t with
    | [] => [[a]]
    | part :: parts => if a == sep then [] :: part :: parts else (a :: part) :: parts

end Text

end Denotation
