import Denotation.Text.Basic
import Denotation.Text.Printable

/-!
# Quoted text

Quoting shows any bytes on one line: printable characters stand for themselves, the quote and the
backslash follow a backslash, and everything else is an escape. A byte that is no character is
written `\xhh`, so quoting loses nothing. Unquoting reads the same escapes and octal ones, and refuses
a line break, an unknown escape and a code point that is no character.
-/

namespace Denotation.Text

/-- The lower case hexadecimal digit of a number below sixteen. -/
def hexDigit (n : Nat) : UInt8 := UInt8.ofNat (if n < 10 then 0x30 + n else 0x57 + n)

/-- The last `width` hexadecimal digits of `n`. -/
def hex : Nat → Nat → Text
  | 0, _ => []
  | width + 1, n => hex width (n / 16) ++ [hexDigit (n % 16)]

/-- The letter that names a control character after a backslash. -/
def controlName? (c : Char) : Option UInt8 :=
  match c.toNat with
  | 0x07 => some 0x61
  | 0x08 => some 0x62
  | 0x09 => some 0x74
  | 0x0A => some 0x6E
  | 0x0B => some 0x76
  | 0x0C => some 0x66
  | 0x0D => some 0x72
  | _ => none

/-- The escape of a character that is not printable. -/
def escapeChar (c : Char) : Text :=
  match controlName? c with
  | some b => [0x5C, b]
  | none =>
    let n := c.toNat
    if n < 0x20 || n == 0x7F then "\\x" ++ hex 2 n
    else if n < 0x10000 then "\\u" ++ hex 4 n
    else "\\U" ++ hex 8 n

/-- A piece as it stands between quotes of the kind `quote`. -/
def escapePiece (quote : Char) (p : Piece) : Text :=
  if p.isInvalid then "\\x" ++ hex 2 (p.bytes.headD 0).toNat
  else if p.char == quote || p.char == '\\' then 0x5C :: p.bytes
  else if isPrintable p.char then p.bytes
  else escapeChar p.char

/-- The text between double quotes. -/
def quote (t : Text) : Text := 0x22 :: (t.pieces.flatMap (escapePiece '"') ++ [0x22])

/-- The piece between single quotes. -/
def quotePiece (p : Piece) : Text := 0x27 :: (escapePiece '\'' p ++ [0x27])

/-- The character between single quotes. -/
def quoteChar (c : Char) : Text := quotePiece ⟨c, ofChar c⟩

/-- The value of a hexadecimal digit of either case. -/
def hexValue? (c : Char) : Option Nat :=
  let n := c.toNat
  if 0x30 ≤ n && n ≤ 0x39 then some (n - 0x30)
  else if 0x61 ≤ n && n ≤ 0x66 then some (n - 0x57)
  else if 0x41 ≤ n && n ≤ 0x46 then some (n - 0x37)
  else none

/-- The value of the first `width` characters as digits in the given base, after digits of value
`acc`. -/
def numeral? (base : Nat) : Nat → Nat → List Char → Option Nat
  | 0, acc, _ => some acc
  | _ + 1, _, [] => none
  | width + 1, acc, c :: rest =>
    match hexValue? c with
    | some d => if d < base then numeral? base width (base * acc + d) rest else none
    | none => none

/-- The byte that a letter stands for after a backslash between double quotes. -/
def named? (c : Char) : Option UInt8 :=
  match c with
  | 'a' => some 0x07
  | 'b' => some 0x08
  | 't' => some 0x09
  | 'n' => some 0x0A
  | 'v' => some 0x0B
  | 'f' => some 0x0C
  | 'r' => some 0x0D
  | '\\' => some 0x5C
  | '"' => some 0x22
  | _ => none

/-- The encoding of a code point, if it is that of a character. -/
def scalar? (n : Nat) : Option Text := if n.isValidChar then some (ofChar (Char.ofNat n)) else none

/-- What the characters after a backslash stand for, and how many of them do. -/
def escape? : List Char → Option (Text × Nat)
  | [] => none
  | c :: rest =>
    match named? c with
    | some b => some ([b], 1)
    | none =>
      if c == 'x' then (numeral? 16 2 0 rest).map fun n => ([UInt8.ofNat n], 3)
      else if c == 'u' then ((numeral? 16 4 0 rest).bind scalar?).map fun t => (t, 5)
      else if c == 'U' then ((numeral? 16 8 0 rest).bind scalar?).map fun t => (t, 9)
      else
        match numeral? 8 3 0 (c :: rest) with
        | some n => if n < 0x100 then some ([UInt8.ofNat n], 3) else none
        | none => none

/-- Unquoting of characters whose first `skip` belong to an escape already read. -/
def unquoteFrom : Nat → List Char → Option Text
  | _, [] => some []
  | skip + 1, _ :: rest => unquoteFrom skip rest
  | 0, c :: rest =>
    if c == '\\' then
      match escape? rest with
      | some (t, width) => (unquoteFrom width rest).map (t ++ ·)
      | none => none
    else if c == '\n' || c == '"' then none
    else (unquoteFrom 0 rest).map (ofChar c ++ ·)

/-- The text that characters between double quotes stand for. -/
def unquote? (cs : List Char) : Option Text := unquoteFrom 0 cs

end Denotation.Text
