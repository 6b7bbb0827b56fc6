import Denotation.Yaml.Cursor

/-!
# Comments of a settings file

A comment goes up to the end of the line. The comments on the lines that follow, between which only
blanks and line breaks stand, are read together with it: they may be indented in any way. They are
looked for among the next 511 bytes, and a line break of more than one byte ends the search.
-/

namespace Denotation.Yaml.Reading

/-- How far is looked ahead for a comment. -/
def lookahead : Nat := 512

/-- Whether the character is a line break of one byte. -/
def isShortBreak (c : Char) : Bool := c == '\n' || c == '\r'

/-- The number of characters in front of the comment that follows the first `n` characters, if only
blanks and line breaks come before it. The text is what follows those characters, of which at most
`fuel` are looked at. -/
def commentAfter (n : Nat) : Nat → List Char → Reading (Option Nat)
  | 0, _ => return none
  | _ + 1, [] => do
    need (n + 1)
    return none
  | fuel + 1, c :: cs => do
    need (n + 1)
    if isBlank c || isShortBreak c then commentAfter (n + 1) fuel cs
    else if c == '#' then return some n
    else if isBreak c && fuel != 0 then
      need (n + 2)
      return none
    else return none

/-- Passes over characters and line breaks up to the place with the given index. -/
def skipTo (index : Nat) : Nat → Reading Unit
  | 0 => return
  | fuel + 1 => do
    if index ≤ (← get).index then return
    need 1
    if (← head).any isBreak then skipBreak else skip
    skipTo index fuel

/-- Passes over the comment at this place, and over those on the lines that follow. -/
def comments : Nat → Reading Unit
  | 0 => return
  | fuel + 1 => do
    skipWhile fun c => !isBreak c
    match ← rest with
    | c :: cs =>
      if !isShortBreak c then need 2
      else
        match ← commentAfter 1 (lookahead - 1) cs with
        | none => return
        | some n =>
          skipTo ((← get).index + n) n
          comments fuel
    | [] => need 2

/-- Passes over a comment behind a token on its last line. -/
def lineComment : Reading Unit := do
  if (← get).fresh then return
  let cs ← rest
  match ← blanksBefore 0 lookahead cs with
  | none => return
  | some n =>
    skipTo ((← get).index + n) n
    skipWhile fun c => !isBreak c
where
  /-- The number of blanks in front of a comment. -/
  blanksBefore (n : Nat) : Nat → List Char → Reading (Option Nat)
    | 0, _ => return none
    | _ + 1, [] => do
      need (n + 1)
      return none
    | fuel + 1, c :: cs => do
      need (n + 1)
      if isBlank c then blanksBefore (n + 1) fuel cs
      else return if c == '#' then some n else none

end Denotation.Yaml.Reading
