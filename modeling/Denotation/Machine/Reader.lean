import Denotation.Machine.Form
import Denotation.Text.Blank
import Denotation.Text.Decimal

/-!
# Reading forms

A source is cut into lexemes, brackets and atoms, with white space, commas and comments dropped
between them; a stack of open brackets then assembles the lexemes into one form. Both passes go from
left to right once, so the first fault of the source is the one reported. Offsets count characters.
-/

namespace Denotation

/-- Why a source is not one form. -/
inductive ReadError where
  /-- The source holds no form. -/
  | endOfInput
  /-- A bracket is not closed. -/
  | missing (close : Char)
  /-- A closing bracket closes nothing. -/
  | unexpected (close : Char) (offset : Nat)
  /-- A quoted text holds an escape or a character that it must not. -/
  | badString (offset : Nat)
  /-- A quoted text has no end. -/
  | unterminated (offset : Nat)
  /-- Something follows the form. -/
  | trailing (offset : Nat)
  deriving DecidableEq, Repr

/-- The text of a reading error. -/
def ReadError.message : ReadError → Text
  | .endOfInput => "unexpected end of input"
  | .missing c => "missing " ++ Text.quoteChar c
  | .unexpected c n => Text.concat ["unexpected ", Text.quoteChar c, " at offset ", Text.ofNat n]
  | .badString n => Text.concat ["bad string at offset ", Text.ofNat n, ": invalid syntax"]
  | .unterminated n => "unterminated string at offset " ++ Text.ofNat n
  | .trailing n => "trailing input at offset " ++ Text.ofNat n

/-- The kinds of bracket. -/
inductive Bracket where
  | round
  | square
  deriving DecidableEq, Repr

/-- The closing bracket. -/
def Bracket.close : Bracket → Char
  | .round => ')'
  | .square => ']'

/-- The form that a bracketed sequence is. -/
def Bracket.form : Bracket → List Form → Form
  | .round, items => .list items
  | .square, items => .vector items

/-- What a lexeme is. -/
inductive LexemeKind where
  | opening (b : Bracket)
  | closing (b : Bracket)
  | atom (f : Form)
  /-- No lexeme starts here. -/
  | fault (e : ReadError)

/-- A lexeme with the offset of its first character. -/
structure Lexeme where
  /-- What it is. -/
  kind : LexemeKind
  /-- Where it starts. -/
  offset : Nat

/-- Whether an atom may go on with the character. -/
def isAtomChar (c : Char) : Bool := !("()[]\"; ,\t\r\n".toList.contains c)

/-- The form that the characters of an atom spell. -/
def atomForm (cs : List Char) : Form :=
  let t := Text.ofChars cs
  if t == Text.ofString "true" then .bool true
  else if t == Text.ofString "false" then .bool false
  else if t == Text.ofString "nil" then .nil
  else
    match Text.toInt64? t with
    | some n => .int n
    | none => .symbol t

/-- How many characters stand before the quote that ends a quoted text; a backslash takes the
character after it along. -/
def stringLength? : List Char → Option Nat
  | [] => none
  | [c] => if c == '"' then some 0 else none
  | c :: d :: rest =>
    if c == '"' then some 0
    else if c == '\\' then (stringLength? rest).map (· + 2)
    else (stringLength? (d :: rest)).map (· + 1)

/-- The lexemes of a source whose first `skip` characters belong to a lexeme already cut, from the
given offset on. A fault ends the lexemes. -/
def lexemesFrom : Nat → Nat → List Char → List Lexeme
  | _, _, [] => []
  | skip + 1, offset, _ :: rest => lexemesFrom skip (offset + 1) rest
  | 0, offset, c :: rest =>
    let next := offset + 1
    if Text.isBlank c || c == ',' then lexemesFrom 0 next rest
    else if c == ';' then lexemesFrom (rest.takeWhile (· != '\n')).length next rest
    else if c == '(' then ⟨.opening .round, offset⟩ :: lexemesFrom 0 next rest
    else if c == '[' then ⟨.opening .square, offset⟩ :: lexemesFrom 0 next rest
    else if c == ')' then ⟨.closing .round, offset⟩ :: lexemesFrom 0 next rest
    else if c == ']' then ⟨.closing .square, offset⟩ :: lexemesFrom 0 next rest
    else if c == '"' then
      match stringLength? rest with
      | none => [⟨.fault (.unterminated offset), offset⟩]
      | some n =>
        match Text.unquote? (rest.take n) with
        | none => [⟨.fault (.badString offset), offset⟩]
        | some t => ⟨.atom (.text t), offset⟩ :: lexemesFrom (n + 1) next rest
    else
      let more := rest.takeWhile isAtomChar
      ⟨.atom (atomForm (c :: more)), offset⟩ :: lexemesFrom more.length next rest

/-- The lexemes of a source. -/
def lexemes (cs : List Char) : List Lexeme := lexemesFrom 0 0 cs

/-- A bracket that is open, with the forms read inside it so far, last one first. -/
structure OpenBracket where
  /-- The bracket. -/
  bracket : Bracket
  /-- The forms inside it, last one first. -/
  items : List Form

/-- What becomes of a finished form: it joins the innermost open bracket, or it is the whole form and
nothing may follow. -/
inductive Delivery where
  | inside (stack : List OpenBracket)
  | whole (f : Form)

/-- Hands a finished form to the innermost open bracket. -/
def deliver (f : Form) : List OpenBracket → Delivery
  | [] => .whole f
  | b :: outer => .inside ({ b with items := f :: b.items } :: outer)

/-- The form, if nothing follows it. -/
def wholeForm (f : Form) : List Lexeme → Except ReadError Form
  | [] => .ok f
  | l :: _ => .error (.trailing l.offset)

/-- Assembles lexemes into one form, given the brackets that are open, innermost first. -/
def assemble : List Lexeme → List OpenBracket → Except ReadError Form
  | [], [] => .error .endOfInput
  | [], b :: _ => .error (.missing b.bracket.close)
  | l :: rest, stack =>
    match l.kind with
    | .opening b => assemble rest (⟨b, []⟩ :: stack)
    | .closing b =>
      match stack with
      | [] => .error (.unexpected b.close l.offset)
      | o :: outer =>
        if o.bracket = b then
          match deliver (b.form o.items.reverse) outer with
          | .inside stack => assemble rest stack
          | .whole f => wholeForm f rest
        else .error (.unexpected b.close l.offset)
    | .atom f =>
      match deliver f stack with
      | .inside stack => assemble rest stack
      | .whole f => wholeForm f rest
    | .fault e => .error e

/-- The one form that a source holds. -/
def Form.read (source : Text) : Except ReadError Form := assemble (lexemes source.chars) []

end Denotation
