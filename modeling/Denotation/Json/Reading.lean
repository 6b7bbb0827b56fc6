import Denotation.Json.Basic
import Denotation.Text.Blank

/-!
# Reading JSON

`Json.read` reads the first JSON value of a text and disregards what follows it. It is a machine with
a stack of open arrays and objects that takes one byte at a time, so the first character that no JSON
text can have there is the one reported.

A text is looked at in blocks: the first holds 64 bytes, and each further one as many as all the
blocks before it. A character or escape sequence that is reported is shown as far as the blocks reach
that had to be looked at.
-/

namespace Denotation.Json

/-- Where a character was met that no JSON text has there. -/
inductive Place where
  | beginningOfValue
  | beginningOfKey
  | afterKey
  | afterMember
  | afterItem
  | inString
  | inNumber
  | inWord (word : Text) (expected : UInt8)
  deriving DecidableEq, Repr

/-- A place as messages show it. -/
def Place.display : Place → Text
  | .beginningOfValue => "looking for beginning of value"
  | .beginningOfKey => "looking for beginning of object key string"
  | .afterKey => "after object key"
  | .afterMember => "after object key:value pair"
  | .afterItem => "after array element"
  | .inString => "in string"
  | .inNumber => "in numeric literal"
  | .inWord word expected =>
    Text.concat ["in literal ", word, " (expecting ", Text.quoteChar (Char.ofNat expected.toNat), ")"]

/-- Why a text does not start with a JSON value. -/
inductive ReadError where
  /-- The text is blank. -/
  | empty
  /-- The text ends inside the value. -/
  | cutShort
  /-- The character cannot stand there. -/
  | invalid (piece : Text.Piece) (place : Place)
  /-- A string holds an escape sequence that stands for nothing. -/
  | escape (sequence : Text)
  /-- An object is closed where a value has to stand. -/
  | mismatched
  /-- Too many arrays and objects are open. -/
  | tooDeep
  deriving DecidableEq, Repr

/-- Whether the piece is shown by an escape in a message about an escape sequence. -/
def isHidden (p : Text.Piece) : Bool :=
  p.char.toNat == 0x60 || p.char == Text.replacement || Text.isBlank p.char || !Text.isPrintable p.char

/-- An escape sequence as messages show it. -/
def sequenceText (t : Text) : Text :=
  if t.pieces.any isHidden then t.quote else Text.concat ["`", t, "`"]

/-- The text of a reading error. -/
def ReadError.message : ReadError → Text
  | .empty => "EOF"
  | .cutShort => "unexpected EOF"
  | .invalid p place => Text.concat ["invalid character ", Text.quotePiece p, " ", place.display]
  | .escape t => Text.concat ["invalid escape sequence ", sequenceText t, " in string"]
  | .mismatched => "mismatching structural token for object or array"
  | .tooDeep => "exceeded max depth"

/-- An array or object that is open, with what it holds so far, last one first. -/
inductive Container where
  | array (items : List Json)
  | object (members : List (Text × Json)) (key : Text)

/-- How far a number has been read. -/
inductive NumberPhase where
  /-- After the minus sign. -/
  | minus
  /-- After a leading zero. -/
  | zero
  /-- In the integer part. -/
  | whole
  /-- After the decimal point. -/
  | point
  /-- In the fraction. -/
  | fraction
  /-- After the exponent mark. -/
  | mark
  /-- After the sign of the exponent. -/
  | sign
  /-- In the exponent. -/
  | exponent
  deriving DecidableEq, Repr

/-- What the reader expects next. Texts read so far stand in reverse. -/
inductive Mode where
  /-- A value, or the end of an array if `orClose`. -/
  | value (orClose : Bool)
  /-- A key, or the end of an object if `orClose`. -/
  | key (orClose : Bool)
  /-- The colon after a key. -/
  | colon
  /-- A comma or the end of the innermost container. -/
  | after
  /-- More of a string, which is a key if `isKey`; the next `escaped` bytes belong to an escape
  sequence. -/
  | string (isKey : Bool) (read : Text) (escaped : Nat)
  /-- More of a number. -/
  | number (read : Text) (phase : NumberPhase)
  /-- The rest of a word. -/
  | word (rest : Text) (whole : Text) (j : Json)

/-- The state of the reader: it goes on, with the open containers innermost first, or it is done. -/
inductive State where
  | reading (mode : Mode) (stack : List Container)
  | done (j : Json)

/-- Whether the byte is white space of JSON. -/
def isSpace (b : UInt8) : Bool := b == 0x20 || b == 0x09 || b == 0x0A || b == 0x0D

/-- Whether the byte is a digit. -/
def isDigitByte (b : UInt8) : Bool := 0x30 ≤ b && b ≤ 0x39

/-- Whether the byte is a hexadecimal digit. -/
def isHexByte (b : UInt8) : Bool :=
  isDigitByte b || (0x61 ≤ b && b ≤ 0x66) || (0x41 ≤ b && b ≤ 0x46)

/-- The character that an escape letter stands for. -/
def unescapeLetter (c : Char) : Char :=
  match c with
  | 'b' => Char.ofNat 0x08
  | 'f' => Char.ofNat 0x0C
  | 'n' => '\n'
  | 'r' => '\r'
  | 't' => '\t'
  | c => c

/-- Whether the number is a surrogate. -/
def isSurrogate (n : Nat) : Bool := 0xD800 ≤ n && n < 0xE000

/-- The number of a `\u` escape at the start of the characters. -/
def unit? : List Char → Option Nat
  | '\\' :: 'u' :: rest => Text.numeral? 16 4 0 rest
  | _ => none

/-- The character that two surrogates stand for. -/
def pair? (high low : Nat) : Option Char :=
  if 0xD800 ≤ high && high < 0xDC00 && 0xDC00 ≤ low && low < 0xE000 then
    some (Char.ofNat ((high - 0xD800) * 0x400 + (low - 0xDC00) + 0x10000))
  else none

/-- The text of the characters of a string, the first `skip` of which belong to an escape already
read. A surrogate without its partner becomes U+FFFD. -/
def unescapeFrom : Nat → List Char → Text
  | _, [] => []
  | skip + 1, _ :: rest => unescapeFrom skip rest
  | 0, c :: rest =>
    if c != '\\' then Text.ofChar c ++ unescapeFrom 0 rest
    else
      match unit? (c :: rest) with
      | some n =>
        if isSurrogate n then
          match (unit? (rest.drop 5)).bind (pair? n) with
          | some ch => Text.ofChar ch ++ unescapeFrom 11 rest
          | none => Text.ofChar Text.replacement ++ unescapeFrom 5 rest
        else Text.ofChar (Char.ofNat n) ++ unescapeFrom 5 rest
      | none =>
        match rest with
        | [] => []
        | d :: _ => Text.ofChar (unescapeLetter d) ++ unescapeFrom 1 rest

/-- The text that the bytes between the quotes of a string stand for. -/
def unescape (raw : Text) : Text := unescapeFrom 0 raw.chars

/-- The state after a value is complete. -/
def finish (j : Json) : List Container → State
  | [] => .done j
  | .array items :: outer => .reading .after (.array (j :: items) :: outer)
  | .object members key :: outer => .reading .after (.object ((key, j) :: members) key :: outer)

/-- The deepest nesting that is read. -/
def maxDepth : Nat := 10000

/-- What is wrong at a byte. -/
inductive Fault where
  /-- The character that starts there cannot stand there. -/
  | place (p : Place)
  /-- Anything else. -/
  | other (e : ReadError)

/-- The state after a container is opened. -/
def openContainer (c : Container) (mode : Mode) (stack : List Container) : Except Fault State :=
  if maxDepth ≤ stack.length then .error (.other .tooDeep) else .ok (.reading mode (c :: stack))

/-- The state after the first byte of a value. -/
def beginValue (b : UInt8) (stack : List Container) : Except Fault State :=
  if b == 0x7B then openContainer (.object [] []) (.key true) stack
  else if b == 0x5B then openContainer (.array []) (.value true) stack
  else if b == 0x22 then .ok (.reading (.string false [] 0) stack)
  else if b == 0x2D then .ok (.reading (.number [b] .minus) stack)
  else if b == 0x30 then .ok (.reading (.number [b] .zero) stack)
  else if isDigitByte b then .ok (.reading (.number [b] .whole) stack)
  else if b == 0x74 then .ok (.reading (.word "rue" "true" (.bool true)) stack)
  else if b == 0x66 then .ok (.reading (.word "alse" "false" (.bool false)) stack)
  else if b == 0x6E then .ok (.reading (.word "ull" "null" .null) stack)
  else if b == 0x7D then .error (.other .mismatched)
  else .error (.place .beginningOfValue)

/-- The state after a byte that follows a value inside the innermost container. -/
def afterValue (b : UInt8) : List Container → Except Fault State
  | [] => .error (.place .beginningOfValue)
  | .array items :: outer =>
    if isSpace b then .ok (.reading .after (.array items :: outer))
    else if b == 0x2C then .ok (.reading (.value false) (.array items :: outer))
    else if b == 0x5D then .ok (finish (.array items.reverse) outer)
    else .error (.place .afterItem)
  | .object members key :: outer =>
    if isSpace b then .ok (.reading .after (.object members key :: outer))
    else if b == 0x2C then .ok (.reading (.key false) (.object members key :: outer))
    else if b == 0x7D then .ok (finish (.object members.reverse) outer)
    else .error (.place .afterMember)

/-- The state after a byte that ends a number of the given spelling, in reverse. -/
def endNumber (read : Text) (b : UInt8) (stack : List Container) : Except Fault State :=
  match finish (.number read.reverse) stack with
  | .done j => .ok (.done j)
  | .reading _ stack => afterValue b stack

/-- The state after a byte of a number. -/
def stepNumber (read : Text) (phase : NumberPhase) (b : UInt8) (stack : List Container) :
    Except Fault State :=
  let go (p : NumberPhase) : Except Fault State := .ok (.reading (.number (b :: read) p) stack)
  let isMark := b == 0x65 || b == 0x45
  match phase with
  | .minus =>
    if b == 0x30 then go .zero
    else if isDigitByte b then go .whole
    else .error (.place .inNumber)
  | .zero =>
    if b == 0x2E then go .point else if isMark then go .mark else endNumber read b stack
  | .whole =>
    if isDigitByte b then go .whole
    else if b == 0x2E then go .point
    else if isMark then go .mark
    else endNumber read b stack
  | .point => if isDigitByte b then go .fraction else .error (.place .inNumber)
  | .fraction =>
    if isDigitByte b then go .fraction else if isMark then go .mark else endNumber read b stack
  | .mark =>
    if b == 0x2B || b == 0x2D then go .sign
    else if isDigitByte b then go .exponent
    else .error (.place .inNumber)
  | .sign => if isDigitByte b then go .exponent else .error (.place .inNumber)
  | .exponent => if isDigitByte b then go .exponent else endNumber read b stack

/-- The state after the closing quote of a string. -/
def endString (isKey : Bool) (read : Text) (stack : List Container) : State :=
  let t := unescape read.reverse
  match isKey, stack with
  | true, .object members _ :: outer => .reading .colon (.object members t :: outer)
  | _, stack => finish (.string t) stack

/-- Where the block that holds the byte with the given number ends. -/
def blockEnd (i : Nat) : Nat := Nat.pow 2 (max 6 (i.log2 + 1))

/-- The start of a text, whose first byte has the given number, that lies in the block of that byte. -/
def inBlock (i : Nat) (t : Text) : Text := t.take (blockEnd i - i)

/-- Whether the text can start an escape sequence with four hexadecimal digits. -/
def startsHexEscape (t : Text) : Bool := (t.drop 2).all isHexByte

/-- The length of the escape sequence with four hexadecimal digits at the start of a text, whose first
byte has the given number. -/
def hexEscape (i : Nat) (t : Text) : Except Fault Nat :=
  let near := (inBlock i t).take 6
  let sequence := if startsHexEscape near then t.take 6 else near
  if !startsHexEscape sequence then .error (.other (.escape sequence))
  else if sequence.length < 6 then .error (.other .cutShort)
  else .ok 6

/-- The length of the escape sequence at the start of a text, whose first byte has the given number. -/
def escapeLength (i : Nat) (t : Text) : Except Fault Nat :=
  match t with
  | _ :: c :: _ =>
    if c == 0x75 then hexEscape i t
    else if (Text.ofString "bfnrt\\/\"").contains c then .ok 2
    else .error (.other (.escape (t.take 2)))
  | _ => .error (.other .cutShort)

/-- The state after the first byte of the text `b :: rest` inside a string. -/
def stepString (isKey : Bool) (read : Text) (escaped i : Nat) (b : UInt8) (rest : Text)
    (stack : List Container) : Except Fault State :=
  let next (n : Nat) : State := .reading (.string isKey (b :: read) n) stack
  match escaped with
  | n + 1 => .ok (next n)
  | 0 =>
    if b == 0x22 then .ok (endString isKey read stack)
    else if b == 0x5C then (escapeLength i (b :: rest)).map fun n => next (n - 1)
    else if b < 0x20 then .error (.place .inString)
    else .ok (next 0)

/-- The state after the first byte of the text `b :: rest`, which has the number `i`. -/
def step (mode : Mode) (stack : List Container) (i : Nat) (b : UInt8) (rest : Text) :
    Except Fault State :=
  match mode with
  | .value orClose =>
    if isSpace b then .ok (.reading mode stack)
    else
      match orClose, b == 0x5D, stack with
      | true, true, .array items :: outer => .ok (finish (.array items.reverse) outer)
      | _, _, stack => beginValue b stack
  | .key orClose =>
    if isSpace b then .ok (.reading mode stack)
    else if b == 0x22 then .ok (.reading (.string true [] 0) stack)
    else
      match orClose, b == 0x7D, stack with
      | true, true, .object members _ :: outer => .ok (finish (.object members.reverse) outer)
      | _, _, _ => .error (.place .beginningOfKey)
  | .colon =>
    if isSpace b then .ok (.reading mode stack)
    else if b == 0x3A then .ok (.reading (.value false) stack)
    else .error (.place .afterKey)
  | .after => afterValue b stack
  | .string isKey read escaped => stepString isKey read escaped i b rest stack
  | .number read phase => stepNumber read phase b stack
  | .word left whole j =>
    match left with
    | [] => .ok (finish j stack)
    | c :: left =>
      if b != c then .error (.place (.inWord whole c))
      else if left.isEmpty then .ok (finish j stack)
      else .ok (.reading (.word left whole j) stack)

/-- The value at the end of the text: only a number can end there. -/
def atEnd : Mode → List Container → Except ReadError Json
  | .number read phase, [] =>
    if phase = .zero ∨ phase = .whole ∨ phase = .fraction ∨ phase = .exponent then
      .ok (.number read.reverse)
    else .error .cutShort
  | .value false, [] => .error .empty
  | _, _ => .error .cutShort

/-- The error of a fault at the start of the text `b :: rest`, whose first byte has the number `i`. -/
def Fault.error (i : Nat) (b : UInt8) (rest : Text) : Fault → ReadError
  | .place p => .invalid (Text.firstPiece b (rest.take (blockEnd i - i - 1))) p
  | .other e => e

/-- Reads on from a state; `i` bytes were read before. -/
def readFrom (mode : Mode) (stack : List Container) (i : Nat) : Text → Except ReadError Json
  | [] => atEnd mode stack
  | b :: rest =>
    match step mode stack i b rest with
    | .error f => .error (f.error i b rest)
    | .ok (.done j) => .ok j
    | .ok (.reading mode stack) => readFrom mode stack (i + 1) rest

/-- The first JSON value of a text. -/
def read (t : Text) : Except ReadError Json := readFrom (.value false) [] 0 t

end Denotation.Json
