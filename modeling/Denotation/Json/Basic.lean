import Denotation.Text.Quoted

/-!
# JSON values

JSON values as they are exchanged with interpreters: numbers are kept by their spelling, and the
members of an object in the order they are written in. `Json.write` writes a value without white
space; characters that could end a script or a line of one are escaped.
-/

namespace Denotation

/-- A JSON value. -/
inductive Json where
  | null
  | bool (b : Bool)
  /-- A number by its spelling. -/
  | number (spelling : Text)
  | string (t : Text)
  | array (items : List Json)
  | object (members : List (Text × Json))

namespace Json

/-- The letter that names a control character after a backslash. -/
def shortEscape? (c : Char) : Option UInt8 :=
  match c.toNat with
  | 0x22 => some 0x22
  | 0x5C => some 0x5C
  | 0x08 => some 0x62
  | 0x09 => some 0x74
  | 0x0A => some 0x6E
  | 0x0C => some 0x66
  | 0x0D => some 0x72
  | _ => none

/-- Whether a character without a short escape is escaped by its code point. -/
def isEscaped (c : Char) : Bool :=
  c.toNat < 0x20 || c == '<' || c == '>' || c == '&' || c.toNat == 0x2028 || c.toNat == 0x2029

/-- A character of a text as it stands in a JSON string. -/
def escape (p : Text.Piece) : Text :=
  match shortEscape? p.char with
  | some b => [0x5C, b]
  | none => if isEscaped p.char then "\\u" ++ Text.hex 4 p.char.toNat else Text.ofChar p.char

/-- A text as a JSON string; a byte that is no character becomes U+FFFD. -/
def writeString (t : Text) : Text := 0x22 :: (t.pieces.flatMap escape ++ [0x22])

mutual

/-- A JSON value as text. -/
def write : Json → Text
  | .null => "null"
  | .bool true => "true"
  | .bool false => "false"
  | .number spelling => spelling
  | .string t => writeString t
  | .array items => Text.concat ["[", Text.join "," (writeAll items), "]"]
  | .object members => Text.concat ["\x7b", Text.join "," (writeMembers members), "\x7d"]

/-- The items of an array as text. -/
def writeAll : List Json → List Text
  | [] => []
  | j :: rest => j.write :: writeAll rest

/-- The members of an object as text. -/
def writeMembers : List (Text × Json) → List Text
  | [] => []
  | (k, j) :: rest => Text.concat [writeString k, ":", j.write] :: writeMembers rest

end

end Json

end Denotation
