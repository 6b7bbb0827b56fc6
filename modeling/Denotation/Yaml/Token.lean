import Denotation.Yaml.Scalar
import Denotation.Yaml.Tag

/-!
# Tokens of a settings file

Indentation and the places where a mapping key may start are settled while tokens are read, so that a
reader of tokens needs no columns. A key that is not marked is only known for one at the colon after
it: the token that marks it is then put in front of the tokens read since.

Tokens wait in a queue. The first one is given away once two more are there and no key may have
started at it. So a place that cannot be read matters to whoever comes within two tokens of it.
-/

namespace Denotation.Yaml

/-- A token of a settings file. -/
inductive Token where
  /-- The start of the file. -/
  | start
  /-- The end of the file. -/
  | ending
  /-- A line with the version that the file is written in. -/
  | version (major minor : Nat)
  /-- A line that gives the tags with some handle a common beginning. -/
  | tagHandle (handle beginning : Text)
  /-- A mark in front of a document. -/
  | documentStart
  /-- A mark behind a document. -/
  | documentEnd
  | blockSequenceStart
  | blockMappingStart
  | blockEnd
  | flowSequenceStart
  | flowSequenceEnd
  | flowMappingStart
  | flowMappingEnd
  | blockEntry
  | flowEntry
  | key
  | value
  | reference (name : Text)
  | anchor (name : Text)
  | tag (handle suffix : Text)
  | scalar (plain : Bool) (value : Text)
  deriving DecidableEq

/-- The last place at a level of flow collections where a key that is not marked may have started. -/
structure KeyStart where
  /-- Whether a key may still have started there. -/
  possible : Bool := false
  /-- Whether nothing but a key may stand there. -/
  required : Bool := false
  /-- How many tokens were read before. -/
  number : Nat := 0
  /-- How many characters came before. -/
  index : Nat := 0
  /-- How many lines came before. -/
  line : Nat := 0
  /-- How many characters of the line came before. -/
  column : Nat := 0

/-- A file of which some tokens were read. -/
structure Scan where
  /-- The place in the file. -/
  cursor : Cursor
  /-- The tokens in the queue. -/
  queue : List Token := [.start]
  /-- How many tokens were given away. -/
  taken : Nat := 0
  /-- The indentation of the innermost block collection. -/
  indent : Int := -1
  /-- The indentations around it, innermost first. -/
  indents : List Int := []
  /-- Whether a key may start here without a mark. -/
  keyAllowed : Bool := true
  /-- How many flow collections lie around the place. -/
  level : Nat := 0
  /-- Where a key may have started at this level of flow collections. -/
  key : KeyStart := {}
  /-- Where keys may have started at the levels around it, innermost first. -/
  outerKeys : List KeyStart := []
  /-- The numbers of the tokens at which keys may have started, with their levels. -/
  starts : List (Nat × Nat) := []

/-- Steps of reading tokens, which fail where the file cannot be read. -/
abbrev Scanning := StateT Scan Option

namespace Scan

/-- The number of the next token. -/
def count (s : Scan) : Nat := s.taken + s.queue.length

/-- Whether the place is inside a flow collection. -/
def inFlow (s : Scan) : Bool := s.level != 0

/-- Adds a token to the queue. -/
def push (s : Scan) (t : Token) : Scan := { s with queue := s.queue ++ [t] }

/-- Puts a token in front of the one with the given number, or behind all if that was given away. -/
def insert (s : Scan) (number : Nat) (t : Token) : Scan :=
  if number < s.taken then s.push t
  else
    let n := number - s.taken
    { s with queue := s.queue.take n ++ t :: s.queue.drop n }

/-- Forgets that a key may have started at the token with the given number. -/
def forget (s : Scan) (number : Nat) : Scan :=
  { s with starts := s.starts.filter fun (n, _) => n != number }

/-- Where a key may have started at the given level. -/
def keyAt? (s : Scan) (level : Nat) : Option KeyStart :=
  if level ≤ s.level then (s.key :: s.outerKeys)[s.level - level]? else none

/-- Rules out that a key started at the given level. -/
def ruleOut (s : Scan) (level : Nat) : Scan :=
  if level == s.level then { s with key := { s.key with possible := false } }
  else { s with outerKeys := s.outerKeys.modify (s.level - level - 1) fun k => { k with possible := false } }

/-- Whether the place is still on the line of a key and not too far behind its start. -/
def isCurrent (s : Scan) (k : KeyStart) : Bool :=
  s.cursor.line ≤ k.line && s.cursor.index ≤ k.index + 1024

/-- How many block collections, and how many flow collections, may lie in one another. -/
def deepest : Nat := 10000

/-- Ends the block collections that lie deeper than the column; the indentations are those around the
innermost collection. -/
def unrollFrom (column : Int) : List Int → Scan → Scan
  | [], s => if s.indent ≤ column then s else { s.push .blockEnd with indent := -1, indents := [] }
  | outer :: rest, s =>
    if s.indent ≤ column then s
    else unrollFrom column rest { s.push .blockEnd with indent := outer, indents := rest }

/-- Ends the block collections that lie deeper than the column. -/
def unroll (column : Int) (s : Scan) : Scan := if s.inFlow then s else unrollFrom column s.indents s

end Scan

namespace Scanning

/-- Reads a part of the file. -/
def read {α : Type} (r : Reading α) : Scanning α := fun s =>
  (r s.cursor).map fun (a, cursor) => (a, { s with cursor })

/-- Adds a token to the queue. -/
def push (t : Token) : Scanning Unit := modify fun s => s.push t

/-- Says whether a key may start here without a mark. -/
def allowKey (allowed : Bool) : Scanning Unit := modify fun s => { s with keyAllowed := allowed }

/-! ## Keys and indentation -/

/-- Rules out a key at this level; fails if one was required. -/
def dropKey : Scanning Unit := do
  let s ← get
  if s.key.possible then
    if s.key.required then failure
    set ((s.ruleOut s.level).forget s.key.number)

/-- Takes note that a key may start here. -/
def saveKey : Scanning Unit := do
  let s ← get
  if s.keyAllowed then
    dropKey
    let c := s.cursor
    let key : KeyStart := {
      possible := true
      required := !s.inFlow && s.indent == (c.column : Int)
      number := s.count
      index := c.index
      line := c.line
      column := c.column }
    modify fun s => { s with key, starts := (s.count, s.level) :: (s.forget s.count).starts }

/-- Whether a key may have started at the given level; fails if one was required that can be none any
more. -/
def mayHaveKey (level : Nat) : Scanning Bool := do
  let s ← get
  let k ← s.keyAt? level
  if !k.possible then return false
  if s.isCurrent k then return true
  if k.required then failure
  set (s.ruleOut level)
  return false

/-- Starts a block collection in front of the token with the given number if the column lies deeper
than the collection around; fails if too many collections lie around it. -/
def roll (column : Nat) (number : Nat) (t : Token) : Scanning Unit := do
  let s ← get
  if s.inFlow || (column : Int) ≤ s.indent then return
  if Scan.deepest ≤ s.indents.length then failure
  set { s.insert number t with indent := column, indents := s.indent :: s.indents }

/-- Starts a block collection at this place. -/
def rollHere (t : Token) : Scanning Unit := do
  let s ← get
  roll s.cursor.column s.count t

/-! ## Blanks and comments -/

/-- Passes over blanks, comments and line breaks up to the next token. After a line break outside flow
collections a key may start. -/
def toTokenFrom : Nat → Scanning Unit
  | 0 => return
  | fuel + 1 => do
    let s ← get
    let tabs := s.inFlow || !s.keyAllowed
    let atBreak ← read do
      .need 1
      let c ← get
      if c.column == 0 && c.marked then .skip
      .skipWhile fun c => c == ' ' || (tabs && c == '\t')
      if (← .head) == some '#' then .comments (← .enough)
      return (← .head).any isBreak
    if atBreak then
      read .skipBreak
      if !s.inFlow then allowKey true
      toTokenFrom fuel

/-- Passes over blanks, comments and line breaks up to the next token. -/
def toToken : Scanning Unit := do toTokenFrom (← read .enough)

/-! ## Tokens -/

/-- Reads a mark between documents. -/
def documentMark (t : Token) : Scanning Unit := do
  modify (Scan.unroll (-1))
  dropKey
  allowKey false
  read (.skipMany 3)
  push t

/-- Reads a line with a directive. -/
def directive : Scanning Unit := do
  modify (Scan.unroll (-1))
  dropKey
  allowKey false
  match ← read .directive with
  | .version major minor => push (.version major minor)
  | .tagHandle handle beginning => push (.tagHandle handle beginning)

/-- Reads the start of a flow collection. -/
def flowStart (t : Token) : Scanning Unit := do
  saveKey
  let s ← get
  if Scan.deepest ≤ s.level then failure
  set { s with
    keyAllowed := true
    level := s.level + 1
    key := { number := s.count }
    outerKeys := s.key :: s.outerKeys }
  read .skip
  push t

/-- Reads the end of a flow collection. -/
def flowEnd (t : Token) : Scanning Unit := do
  dropKey
  let s ← get
  match s.outerKeys with
  | [] => pure ()
  | key :: outerKeys => set { s.forget s.key.number with level := s.level - 1, key, outerKeys }
  allowKey false
  read .skip
  push t

/-- Reads the comma between entries of a flow collection. -/
def flowEntry : Scanning Unit := do
  dropKey
  allowKey true
  read .skip
  push .flowEntry

/-- Reads the dash in front of an entry of a sequence. -/
def blockEntry : Scanning Unit := do
  let s ← get
  if !s.inFlow && !s.keyAllowed then failure
  rollHere .blockSequenceStart
  dropKey
  allowKey true
  read .skip
  push .blockEntry

/-- Reads the mark in front of a key. -/
def markedKey : Scanning Unit := do
  let s ← get
  if !s.inFlow && !s.keyAllowed then failure
  rollHere .blockMappingStart
  dropKey
  allowKey (!s.inFlow)
  read .skip
  push .key

/-- Reads the colon in front of a value. -/
def value : Scanning Unit := do
  if ← mayHaveKey (← get).level then
    let k := (← get).key
    modify fun s => s.insert k.number .key
    roll k.column k.number .blockMappingStart
    modify fun s => (s.ruleOut s.level).forget k.number
    allowKey false
  else
    let s ← get
    if !s.inFlow && !s.keyAllowed then failure
    rollHere .blockMappingStart
    allowKey (!s.inFlow)
  read .skip
  push .value

/-- Reads an alias or an anchor. -/
def name (token : Text → Token) : Scanning Unit := do
  saveKey
  allowKey false
  push (token (← read .name))

/-- Reads a tag. -/
def tag : Scanning Unit := do
  saveKey
  allowKey false
  let (handle, suffix) ← read .tag
  push (.tag handle suffix)

/-- Reads a block scalar. -/
def blockScalar (literal : Bool) : Scanning Unit := do
  dropKey
  allowKey true
  let chars ← read (.block literal (← get).indent)
  push (.scalar false (Text.ofChars chars))

/-- Reads a quoted scalar. -/
def quotedScalar (single : Bool) : Scanning Unit := do
  saveKey
  allowKey false
  let chars ← read (.quoted single)
  push (.scalar false (Text.ofChars chars))

/-- Reads a plain scalar. -/
def plainScalar : Scanning Unit := do
  saveKey
  let s ← get
  let p ← read (.plain s.inFlow (s.indent + 1))
  allowKey p.crossed
  push (.scalar true (Text.ofChars p.value))

/-- Reads a token that is neither a mark between documents nor a directive, whose first character is
given with the text after it. -/
def content (c : Char) (rest : List Char) : Scanning Unit := do
  let inFlow := (← get).inFlow
  match c with
  | '[' => flowStart .flowSequenceStart
  | '\x7b' => flowStart .flowMappingStart
  | ']' => flowEnd .flowSequenceEnd
  | '\x7d' => flowEnd .flowMappingEnd
  | ',' => flowEntry
  | '-' => if atGap rest then blockEntry else plainScalar
  | '?' => if inFlow || atGap rest then markedKey else plainScalar
  | ':' => if inFlow || atGap rest then value else plainScalar
  | '*' => name .reference
  | '&' => name .anchor
  | '!' => tag
  | '|' => if inFlow then failure else blockScalar true
  | '>' => if inFlow then failure else blockScalar false
  | '\'' => quotedScalar true
  | '"' => quotedScalar false
  | _ =>
    if isBlank c || isBreak c || c == '#' || c == '%' || c == '@' || c.toNat == 0x60 then failure
    else plainScalar

/-- Reads the end of the file, which is at the start of a line. -/
def ending : Scanning Unit := do
  read (modify fun c => if c.column == 0 then c else c.newLine 0)
  modify (Scan.unroll (-1))
  dropKey
  allowKey false
  push .ending

/-- Reads the next token. -/
def next : Scanning Unit := do
  toToken
  modify fun s => s.unroll s.cursor.column
  read (.need 4)
  let c := (← get).cursor
  match c.rest with
  | [] => ending
  | a :: rest =>
    if c.column == 0 && a == '%' then directive
    else if c.column == 0 && atDocumentMark c.rest then
      documentMark (if a == '-' then .documentStart else .documentEnd)
    else
      content a rest
      if (← get).queue.getLast? != some .blockEntry then read .lineComment

/-! ## The queue -/

/-- Whether the first token of the queue may be given away. -/
def isReady : Scanning Bool := do
  let s ← get
  if s.queue.length ≤ 2 then return false
  match s.starts.find? fun (n, _) => n == s.taken with
  | none => return true
  | some (_, level) => return !(← mayHaveKey level)

/-- Reads tokens, at most `fuel` of them, until the first one may be given away. -/
def prepare : Nat → Scanning Unit
  | 0 => failure
  | fuel + 1 => do
    if ← isReady then return
    next
    prepare fuel

/-- The next token. -/
def peek : Scanning Token := do
  prepare ((← read .enough) + 3)
  (← get).queue.head?

/-- Gives the next token away. -/
def skip : Scanning Unit := modify fun s =>
  { s.forget s.taken with queue := s.queue.drop 1, taken := s.taken + 1 }

end Scanning

/-- A file none of whose tokens was read. -/
def Scan.ofText (t : Text) : Scan := { cursor := (Source.ofText t).start }

end Denotation.Yaml
