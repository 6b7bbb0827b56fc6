import Denotation.Yaml.Character
import Denotation.Yaml.Source

/-!
# Places in a settings file

Reading a file goes from character to character. Before a character is looked at it is asked for, and
when it is not there yet the next blocks of the file are taken in, which fails if one of them cannot
be read. So what stands far behind the place where reading ends has no effect.

The characters that are held start where more of them were asked for last. If that is at a byte order
mark, one character is passed over wherever a line starts, which is the mark itself where it stands
there.
-/

namespace Denotation.Yaml

/-- A place in a file. -/
structure Cursor where
  /-- The characters that follow. -/
  rest : List Char
  /-- How many characters the file has. -/
  size : Nat
  /-- How many characters each of the blocks holds that were not taken in. -/
  blocks : List Nat
  /-- Whether the end of the file follows the blocks. -/
  intact : Bool
  /-- How many characters are held from here on; beyond the end of the file this is counted on. -/
  held : Nat := 0
  /-- Whether the characters that are held start with a byte order mark. -/
  marked : Bool := false
  /-- How many characters came before. -/
  index : Nat := 0
  /-- How many lines came before. -/
  line : Nat := 0
  /-- How many characters of the line came before. -/
  column : Nat := 0
  /-- Whether only blanks came since the last line break. -/
  fresh : Bool := false

/-- The start of a file. -/
def Source.start (s : Source) : Cursor where
  rest := s.chars
  size := s.chars.length
  blocks := s.blocks
  intact := s.intact

namespace Cursor

/-- Takes in blocks until `k` characters are held; beyond the end of the file one more is counted. -/
def fill (intact : Bool) (k : Nat) : List Nat → Nat → Option (List Nat × Nat)
  | [], held => if k ≤ held then some ([], held) else if intact then some ([], held + 1) else none
  | b :: more, held => if k ≤ held then some (b :: more, held) else fill intact k more (held + b)

/-- Asks for `k` characters. -/
def need (k : Nat) (c : Cursor) : Option Cursor :=
  if k ≤ c.held then some c
  else
    (fill c.intact k c.blocks c.held).map fun (blocks, held) =>
      { c with blocks, held, marked := c.rest.head?.any fun a => a.toNat == 0xFEFF }

/-- Passes over a character of the line. -/
def skip (c : Cursor) : Cursor :=
  { c with
    rest := c.rest.drop 1
    held := c.held - 1
    index := c.index + 1
    column := c.column + 1
    fresh := c.fresh && c.rest.head?.any isBlank }

/-- Passes over `n` characters and starts a line. -/
def newLine (c : Cursor) (n : Nat) : Cursor :=
  { c with
    rest := c.rest.drop n
    held := c.held - n
    index := c.index + n
    line := c.line + 1
    column := 0
    fresh := true }

/-- Passes over a line break, of which a carriage return with a line feed is one. -/
def skipBreak (c : Cursor) : Cursor :=
  match c.rest with
  | '\r' :: '\n' :: _ => c.newLine 2
  | a :: _ => if isBreak a then c.newLine 1 else c
  | [] => c

end Cursor

/-- Steps of reading a file, which fail where it cannot be read. -/
abbrev Reading := StateT Cursor Option

namespace Reading

/-- Asks for `k` characters. -/
def need (k : Nat) : Reading Unit := fun c => (c.need k).map fun c => ((), c)

/-- The characters that follow. -/
def rest : Reading (List Char) := return (← get).rest

/-- A number of steps in which all characters that follow can be read. -/
def enough : Reading Nat := return (← get).size + 1

/-- The next character. -/
def head : Reading (Option Char) := return (← get).rest.head?

/-- The column of the place. -/
def column : Reading Nat := return (← get).column

/-- Passes over a character of the line. -/
def skip : Reading Unit := modify Cursor.skip

/-- Passes over `n` characters of the line. -/
def skipMany : Nat → Reading Unit
  | 0 => return
  | n + 1 => do skip; skipMany n

/-- Passes over a line break. -/
def skipBreak : Reading Unit := do need 2; modify Cursor.skipBreak

/-- Reads the characters of the line up to the first that does not pass the test, at most `fuel` of
them. -/
def takeFrom (test : Char → Bool) : Nat → Reading (List Char)
  | 0 => return []
  | fuel + 1 => do
    need 1
    match ← head with
    | none => return []
    | some a =>
      if test a then
        skip
        return a :: (← takeFrom test fuel)
      else return []

/-- Reads the characters of the line up to the first that does not pass the test. -/
def takeWhile (test : Char → Bool) : Reading (List Char) := do takeFrom test (← enough)

/-- Passes over the characters of the line up to the first that does not pass the test. -/
def skipWhile (test : Char → Bool) : Reading Unit := do let _ ← takeWhile test

/-- Whether a mark between documents stands at the start of the line. -/
def atMark : Reading Bool := return (← column) == 0 && atDocumentMark (← rest)

end Reading

end Denotation.Yaml
