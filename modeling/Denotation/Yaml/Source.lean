import Denotation.Text.Basic

/-!
# The characters of a settings file

A file is read as UTF-8, or as UTF-16 if it starts with a byte order mark of that encoding. It is read
in blocks of 512 bytes, and a character that does not fit in a block any more starts the next one.
Text that is not well formed, and control characters other than tabs and line breaks, cannot be read:
a block that holds some of it cannot be read at all, and no block after it. Whether that matters is up
to those who read the file: they may be content with the blocks before.
-/

namespace Denotation.Yaml

/-- Whether the character may occur in a file. -/
def isAllowed (c : Char) : Bool :=
  let n := c.toNat
  n == 0x09 || n == 0x0A || n == 0x0D || (0x20 ≤ n && n ≤ 0x7E) || n == 0x85
    || (0xA0 ≤ n && n ≤ 0xD7FF) || (0xE000 ≤ n && n ≤ 0xFFFD) || 0x10000 ≤ n

/-- What the start of a text is. -/
inductive Start where
  /-- A character, with the number of its bytes. -/
  | char (c : Char) (width : Nat)
  /-- A part of a character that the text ends in. -/
  | cut
  /-- Nothing that can be read, which is noticed after this many bytes. -/
  | bad (width : Nat)

/-- A character that is allowed. -/
def Start.ofChar (c : Char) (width : Nat) : Start := if isAllowed c then .char c width else .bad width

/-- How many bytes a character has in UTF-8, by the first one. -/
def utf8Width? (a : UInt8) : Option Nat :=
  let n := a.toNat
  if n < 0x80 then some 1
  else if n < 0xC0 then none
  else if n < 0xE0 then some 2
  else if n < 0xF0 then some 3
  else if n < 0xF8 then some 4
  else none

/-- The start of the text `a :: rest` in UTF-8. -/
def utf8Start (a : UInt8) (rest : Text) : Start :=
  match utf8Width? a with
  | none => .bad 1
  | some w =>
    if (rest.take (w - 1)).length < w - 1 then .cut
    else
      let p := Text.firstPiece a rest
      if p.isInvalid then .bad w else .ofChar p.char w

/-- The 16-bit unit of two bytes, with the high one first if `bigEndian`. -/
def unit (bigEndian : Bool) (a b : UInt8) : Nat :=
  if bigEndian then 256 * a.toNat + b.toNat else a.toNat + 256 * b.toNat

/-- The start of the text `a :: rest` in UTF-16. -/
def utf16Start (bigEndian : Bool) (a : UInt8) (rest : Text) : Start :=
  match rest with
  | [] => .cut
  | b :: rest =>
    let n := unit bigEndian a b
    if 0xDC00 ≤ n && n < 0xE000 then .bad 2
    else if 0xD800 ≤ n && n < 0xDC00 then
      match rest with
      | c :: d :: _ =>
        let k := unit bigEndian c d
        if 0xDC00 ≤ k && k < 0xE000 then
          .ofChar (Char.ofNat (0x10000 + 0x400 * (n - 0xD800) + (k - 0xDC00))) 4
        else .bad 4
      | _ => .cut
    else .ofChar (Char.ofNat n) 2

/-- Why no more characters follow. -/
inductive Stop where
  /-- The file ends. -/
  | finished
  /-- The file ends in a part of a character. -/
  | cut
  /-- What follows cannot be read, which is noticed after this many bytes. -/
  | bad (width : Nat)

/-- The characters of a text with their widths, the first `skip` bytes of which belong to a character
already read, and why they end. -/
def decodeFrom (start : UInt8 → Text → Start) : Nat → Text → List (Char × Nat) × Stop
  | _, [] => ([], .finished)
  | skip + 1, _ :: rest => decodeFrom start skip rest
  | 0, a :: rest =>
    match start a rest with
    | .cut => ([], .cut)
    | .bad w => ([], .bad w)
    | .char c w =>
      let (cs, stop) := decodeFrom start (w - 1) rest
      ((c, w) :: cs, stop)

/-- The number of bytes of a block. -/
def blockSize : Nat := 512

/-- The block of `count` characters, if there are any. -/
def blockOf (count : Nat) : List Nat := if count == 0 then [] else [count]

/-- How many characters each block holds, for characters of the given widths after a block with
`count` characters and room for `room` more bytes. -/
def arrange (stop : Stop) : Nat → Nat → List Nat → List Nat
  | room, count, [] =>
    match stop with
    | .bad w => if w ≤ room then [] else blockOf count
    | _ => blockOf count
  | room, count, w :: rest =>
    if w ≤ room then arrange stop (room - w) (count + 1) rest
    else count :: arrange stop (blockSize - w) 1 rest

/-- A file by its characters. -/
structure Source where
  /-- The characters of the blocks that can be read. -/
  chars : List Char
  /-- How many characters each of these blocks holds. -/
  blocks : List Nat
  /-- Whether the end of the file follows. -/
  intact : Bool

/-- The file of a text in the given encoding, after a byte order mark of `mark` bytes. -/
def Source.decode (start : UInt8 → Text → Start) (mark : Nat) (t : Text) : Source :=
  let (cs, stop) := decodeFrom start 0 t
  let blocks := arrange stop (blockSize - mark) 0 (cs.map Prod.snd)
  let intact := match stop with
    | .finished => true
    | _ => false
  ⟨(cs.map Prod.fst).take (blocks.foldl (· + ·) 0), blocks, intact⟩

/-- The file of a text. -/
def Source.ofText : Text → Source
  | 0xFF :: 0xFE :: rest => Source.decode (utf16Start false) 2 rest
  | 0xFE :: 0xFF :: rest => Source.decode (utf16Start true) 2 rest
  | 0xEF :: 0xBB :: 0xBF :: rest => Source.decode utf8Start 3 rest
  | t => Source.decode utf8Start 0 t

end Denotation.Yaml
