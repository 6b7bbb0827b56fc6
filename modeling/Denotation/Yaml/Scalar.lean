import Denotation.Yaml.Comment

/-!
# Scalars in a settings file

A scalar is plain, between quotes, or a block of lines. In plain and quoted scalars a line break with
the blanks around it reads as a space, and each further line break as itself. Reading a scalar gives
its characters and goes on to the place after it.
-/

namespace Denotation.Yaml

/-- Blanks and line breaks between two words of a scalar. -/
structure Spacing where
  /-- The blanks before any line break. -/
  blanks : List Char := []
  /-- The first line break. -/
  first : List Char := []
  /-- The line breaks after the first. -/
  further : List Char := []
  /-- Whether there was a line break. -/
  crossed : Bool := false

namespace Spacing

/-- What the spacing reads as. -/
def text (g : Spacing) : List Char :=
  if !g.crossed then g.blanks
  else if g.first.head? == some '\n' then if g.further.isEmpty then [' '] else g.further
  else g.first ++ g.further

/-- The spacing after one more blank; blanks after a line break count for nothing. -/
def addBlank (g : Spacing) (c : Char) : Spacing :=
  if g.crossed then g else { g with blanks := g.blanks ++ [c] }

/-- The spacing after one more line break. -/
def addBreak (g : Spacing) (c : Char) : Spacing :=
  if g.crossed then { g with further := g.further ++ [breakChar c] }
  else { g with blanks := [], first := [breakChar c], crossed := true }

end Spacing

namespace Reading

/-- Reads blanks and line breaks, at most `fuel` of them; fails if a tab stands where a line of the
scalar has to be indented. -/
def spacing (indent : Int) : Nat → Spacing → Reading Spacing
  | 0, g => return g
  | fuel + 1, g => do
    match ← head with
    | none => return g
    | some c =>
      if isBlank c then
        if g.crossed && c == '\t' && ((← column) : Int) < indent then failure
        skip
        need 1
        spacing indent fuel (g.addBlank c)
      else if isBreak c then
        skipBreak
        need 1
        spacing indent fuel (g.addBreak c)
      else return g

/-! ## Plain scalars -/

/-- A plain scalar. -/
structure Plain where
  /-- The characters of the scalar. -/
  value : List Char
  /-- Whether a line break follows the scalar. -/
  crossed : Bool

/-- Whether a plain scalar ends at a character that is no blank. -/
def endsPlain (flow : Bool) (c : Char) (rest : List Char) : Bool :=
  (c == ':' && atGap rest) || (flow && (c == ',' || c == '?' || c == '[' || c == ']'
    || c == '\x7b' || c == '\x7d'))

/-- Reads the characters up to spacing or the end of a plain scalar, at most `fuel` of them. -/
def plainWord (flow : Bool) : Nat → Reading (List Char)
  | 0 => return []
  | fuel + 1 => do
    match ← rest with
    | [] => return []
    | c :: after =>
      if isBlank c || isBreak c || endsPlain flow c after then return []
      else
        skip
        need 2
        return c :: (← plainWord flow fuel)

/-- Reads a plain scalar after words that read as `value` and spacing. -/
def plainFrom (flow : Bool) (indent : Int) : Nat → List Char → Spacing → Reading Plain
  | 0, _, _ => failure
  | fuel + 1, value, g => do
    need 4
    if (← atMark) || (← head) == some '#' then return ⟨value, g.crossed⟩
    let word ← plainWord flow (← enough)
    let (value, g) := if word.isEmpty then (value, g) else (value ++ g.text ++ word, {})
    let after ← rest
    if after.isEmpty || !atGap after then return ⟨value, g.crossed⟩
    need 1
    let g ← spacing indent (← enough) g
    if !flow && ((← column) : Int) < indent then return ⟨value, g.crossed⟩
    plainFrom flow indent fuel value g

/-- Reads a plain scalar, whose lines have to be indented if it is not in a flow collection. -/
def plain (flow : Bool) (indent : Int) : Reading Plain := do
  plainFrom flow indent (← enough) [] {}

/-! ## Quoted scalars -/

/-- The number of exactly `n` hexadecimal digits after digits of value `value`. -/
def hexNumber? : Nat → Nat → List Char → Option Nat
  | 0, value, _ => some value
  | n + 1, value, c :: cs => (hexDigit? c).bind fun d => hexNumber? n (16 * value + d) cs
  | _ + 1, _, [] => none

/-- Reads the character that a number of `n` hexadecimal digits stands for. -/
def numericEscape (n : Nat) : Reading Char := do
  need n
  let value ← hexNumber? n 0 (← rest)
  if (0xD800 ≤ value && value ≤ 0xDFFF) || 0x10FFFF < value then failure
  skipMany n
  return Char.ofNat value

/-- The character that a backslash and the given character stand for. -/
def simpleEscape? : Char → Option Char
  | '0' => some (Char.ofNat 0)
  | 'a' => some (Char.ofNat 0x07)
  | 'b' => some (Char.ofNat 0x08)
  | 't' => some '\t'
  | '\t' => some '\t'
  | 'n' => some '\n'
  | 'v' => some (Char.ofNat 0x0B)
  | 'f' => some (Char.ofNat 0x0C)
  | 'r' => some '\r'
  | 'e' => some (Char.ofNat 0x1B)
  | ' ' => some ' '
  | '"' => some '"'
  | '\'' => some '\''
  | '\\' => some '\\'
  | 'N' => some (Char.ofNat 0x85)
  | '_' => some (Char.ofNat 0xA0)
  | 'L' => some (Char.ofNat 0x2028)
  | 'P' => some (Char.ofNat 0x2029)
  | _ => none

/-- Reads an escape sequence, of which the given character comes after the backslash. -/
def escape (c : Char) : Reading Char := do
  skipMany 2
  match c with
  | 'x' => numericEscape 2
  | 'u' => numericEscape 4
  | 'U' => numericEscape 8
  | c => simpleEscape? c

/-- A word of a quoted scalar. -/
structure QuotedWord where
  /-- The characters of the word. -/
  value : List Char
  /-- Whether the word ends in an escaped line break. -/
  cut : Bool

/-- Reads the characters up to spacing, the closing quote or an escaped line break, at most `fuel` of
them. -/
def quotedWord (single : Bool) : Nat → Reading QuotedWord
  | 0 => failure
  | fuel + 1 => do
    let more (a : Char) : Reading QuotedWord := do
      need 2
      let w ← quotedWord single fuel
      return { w with value := a :: w.value }
    match ← rest with
    | [] => return ⟨[], false⟩
    | c :: after =>
      if isBlank c || isBreak c then return ⟨[], false⟩
      else if single then
        if c != '\'' then
          skip
          more c
        else if after.head? == some '\'' then
          skipMany 2
          more '\''
        else return ⟨[], false⟩
      else if c == '"' then return ⟨[], false⟩
      else if c == '\\' then
        if after.head?.any isBreak then
          need 3
          skip
          skipBreak
          return ⟨[], true⟩
        else more (← escape (← after.head?))
      else
        skip
        more c

/-- Reads a quoted scalar after words that read as `value`, up to its closing quote. -/
def quotedFrom (single : Bool) : Nat → List Char → Reading (List Char)
  | 0, _ => failure
  | fuel + 1, value => do
    need 4
    if (← rest).isEmpty || (← atMark) then failure
    let w ← quotedWord single (← enough)
    need 1
    let value := value ++ w.value
    if (← head) == some (if single then '\'' else '"') then
      skip
      return value
    let g ← spacing 0 (← enough) { crossed := w.cut }
    quotedFrom single fuel (value ++ g.text)

/-- Reads a quoted scalar. -/
def quoted (single : Bool) : Reading (List Char) := do
  skip
  quotedFrom single (← enough) []

/-! ## Block scalars -/

/-- What becomes of the line breaks at the end of a block scalar. -/
inductive Chomping where
  | strip
  | clip
  | keep
  deriving DecidableEq

/-- What stands after the indicator of a block scalar. -/
structure BlockHeader where
  /-- What becomes of the line breaks at the end. -/
  chomping : Chomping := .clip
  /-- The indentation relative to the collection around the scalar, zero if not given. -/
  increment : Nat := 0

/-- The chomping that a character stands for. -/
def chomping? : Char → Option Chomping
  | '+' => some .keep
  | '-' => some .strip
  | _ => none

/-- Reads how the line breaks at the end of a block scalar are treated, if it is said. -/
def chomping : Reading (Option Chomping) := do
  need 1
  match (← head).bind chomping? with
  | some c => skip; return some c
  | none => return none

/-- Reads the indentation of a block scalar, zero if it is not given. -/
def increment : Reading Nat := do
  need 1
  match ← head with
  | none => return 0
  | some c =>
    if c == '0' then failure
    else if c.isDigit then
      skip
      return c.toNat - 0x30
    else return 0

/-- Reads the header of a block scalar, in which chomping and indentation may change places. -/
def blockHeader : Reading BlockHeader := do
  match ← chomping with
  | some c => return ⟨c, ← increment⟩
  | none =>
    let n ← increment
    if n == 0 then return {}
    else return ⟨(← chomping).getD .clip, n⟩

/-- Empty lines in front of a line of a block scalar. -/
structure EmptyLines where
  /-- The line breaks. -/
  breaks : List Char := []
  /-- The longest indentation of any of the lines. -/
  widest : Nat := 0

/-- Passes over at most `fuel` spaces of indentation; `indent` is zero while it is not known. -/
def indentation (indent : Nat) : Nat → Reading Unit
  | 0 => return
  | fuel + 1 => do
    if (indent == 0 || (← column) < indent) && (← head) == some ' ' then
      skip
      need 1
      indentation indent fuel

/-- Reads empty lines and the indentation of the line after them; `indent` is zero while it is not
known. Fails if a tab stands in the indentation. -/
def emptyLines (indent : Nat) : Nat → EmptyLines → Reading EmptyLines
  | 0, e => return e
  | fuel + 1, e => do
    need 1
    indentation indent (← enough)
    let e := { e with widest := max e.widest (← column) }
    match ← head with
    | none => return e
    | some c =>
      if (indent == 0 || (← column) < indent) && c == '\t' then failure
      if !isBreak c then return e
      skipBreak
      emptyLines indent fuel { e with breaks := e.breaks ++ [breakChar c] }

/-- Reads the line break at this place, if there is one. -/
def lineBreak : Reading (List Char) := do
  let c ← head
  skipBreak
  return (c.toList.filter isBreak).map breakChar

/-- What was read of a block scalar. -/
structure BlockText where
  /-- What the lines read as. -/
  value : List Char := []
  /-- The line break after them. -/
  lineBreak : List Char := []
  /-- Whether the last line starts with a blank. -/
  blank : Bool := false

/-- Reads the lines of a block scalar after lines already read and empty lines. -/
def blockFrom (literal : Bool) (indent : Nat) :
    Nat → BlockText → EmptyLines → Reading (BlockText × EmptyLines)
  | 0, _, _ => failure
  | fuel + 1, b, e => do
    if (← column) != indent || (← rest).isEmpty then return (b, e)
    let blank := (← head).any isBlank
    let joint :=
      if !literal && !b.blank && !blank && b.lineBreak.head? == some '\n' then
        if e.breaks.isEmpty then [' '] else []
      else b.lineBreak
    let line ← takeWhile fun c => !isBreak c
    let value := b.value ++ joint ++ e.breaks ++ line
    let lineBreak ← lineBreak
    let e ← emptyLines indent (← enough) {}
    blockFrom literal indent fuel { value, lineBreak, blank } e

/-- Reads a block scalar inside a collection with the given indentation. -/
def block (literal : Bool) (parent : Int) : Reading (List Char) := do
  skip
  let header ← blockHeader
  skipWhile isBlank
  if (← head) == some '#' then skipWhile fun c => !isBreak c
  if !atLineEnd (← rest) then failure
  if !(← rest).isEmpty then skipBreak
  let given := if header.increment == 0 then 0 else (max parent 0).toNat + header.increment
  let e ← emptyLines given (← enough) {}
  let indent := if given == 0 then max (max e.widest (parent + 1).toNat) 1 else given
  need 1
  let (b, e) ← blockFrom literal indent (← enough) {} e
  match header.chomping with
  | .strip => return b.value
  | .clip => return b.value ++ b.lineBreak
  | .keep => return b.value ++ b.lineBreak ++ e.breaks

end Reading

end Denotation.Yaml
