import Denotation.Yaml.Cursor

/-!
# Names, tags and directives of a settings file

A name is what comes after the indicator of an anchor or an alias. A tag has a handle, which may stand
for a common beginning, and a suffix in which percent signs escape bytes. Directives are lines in front
of a document: they name the version that it is written in and give handles a meaning.
-/

namespace Denotation.Yaml.Reading

/-- Reads the name of an anchor or an alias after its indicator. -/
def name : Reading Text := do
  skip
  let name ← takeWhile isNameChar
  let after ← rest
  let closed := atGap after || after.head?.any fun c =>
    c == '?' || c == ':' || c == ',' || c == ']' || c == '\x7d' || c == '%' || c == '@' || c.toNat == 0x60
  if name.isEmpty || !closed then failure
  return Text.ofChars name

/-! ## Tags -/

/-- Whether the character may stand in a tag. -/
def isTagChar (c : Char) : Bool :=
  isNameChar c || (";/?:@&=+$,.!~*'()[]%".toList).contains c

/-- The byte of an escape sequence at the start of a text. -/
def tagByte? : List Char → Option UInt8
  | '%' :: a :: b :: _ => do return UInt8.ofNat (16 * (← hexDigit? a) + (← hexDigit? b))
  | _ => none

/-- Reads the byte of an escape sequence in a tag. -/
def tagByte : Reading UInt8 := do
  need 3
  let b ← tagByte? (← rest)
  skipMany 3
  return b

/-- Reads the escaped bytes after the first one of a character. -/
def tailBytes : Nat → Reading Text
  | 0 => return []
  | n + 1 => do
    let b ← tagByte
    if !Text.isTail b then failure
    return b :: (← tailBytes n)

/-- Reads a character in a tag each of whose bytes is escaped. -/
def tagEscape : Reading Text := do
  let b ← tagByte
  return b :: (← tailBytes ((← utf8Width? b) - 1))

/-- Reads the characters of a tag, at most `fuel` of them. -/
def tagTextFrom : Nat → Reading Text
  | 0 => return []
  | fuel + 1 => do
    need 1
    match ← head with
    | none => return []
    | some c =>
      if c == '%' then
        let t ← tagEscape
        return t ++ (← tagTextFrom fuel)
      else if isTagChar c then
        skip
        return Text.ofChar c ++ (← tagTextFrom fuel)
      else return []

/-- Reads the characters of a tag. -/
def tagText : Reading Text := do tagTextFrom (← enough)

/-- Reads the handle of a tag. -/
def tagHandle : Reading (List Char) := do
  need 1
  if (← head) != some '!' then failure
  skip
  let name ← takeWhile isNameChar
  if (← head) == some '!' then
    skip
    return '!' :: name ++ ['!']
  else return '!' :: name

/-- Whether the handle has an exclamation mark at both ends. -/
def isClosed (handle : List Char) : Bool := 1 < handle.length && handle.getLast? == some '!'

/-- Reads the handle and the suffix of a tag. -/
def tagParts : Reading (Text × Text) := do
  need 2
  if ['!', '<'].isPrefixOf (← rest) then
    skipMany 2
    let suffix ← tagText
    if suffix.isEmpty || (← head) != some '>' then failure
    skip
    return ([], suffix)
  let handle ← tagHandle
  let suffix ← tagText
  if isClosed handle then
    if suffix.isEmpty then failure
    return (Text.ofChars handle, suffix)
  let suffix := Text.ofChars (handle.drop 1) ++ suffix
  if suffix.isEmpty then return ([], Text.ofString "!")
  return (Text.ofString "!", suffix)

/-- Reads a tag, which has to end in a gap. -/
def tag : Reading (Text × Text) := do
  let parts ← tagParts
  need 1
  if !atGap (← rest) then failure
  return parts

/-! ## Directives -/

/-- A line in front of a document. -/
inductive Directive where
  /-- The version that the file is written in. -/
  | version (major minor : Nat)
  /-- A common beginning for the tags with some handle. -/
  | tagHandle (handle beginning : Text)

/-- Reads a decimal number of at most two digits. -/
def versionNumber : Reading Nat := do
  let digits ← takeWhile Char.isDigit
  if digits.isEmpty || 2 < digits.length then failure
  return digits.foldl (fun n d => 10 * n + (d.toNat - 0x30)) 0

/-- Reads the version that the file is written in. -/
def version : Reading Directive := do
  let major ← versionNumber
  if (← head) != some '.' then failure
  skip
  return .version major (← versionNumber)

/-- Reads a handle and the beginning that it stands for. -/
def handleMeaning : Reading Directive := do
  let handle ← tagHandle
  if handle != ['!'] && !isClosed handle then failure
  need 1
  if !(← head).any isBlank then failure
  skipWhile isBlank
  let beginning ← tagText
  need 1
  if beginning.isEmpty || !atGap (← rest) then failure
  return .tagHandle (Text.ofChars handle) beginning

/-- Reads a line with a directive. -/
def directive : Reading Directive := do
  skip
  let name ← takeWhile isNameChar
  if !atGap (← rest) then failure
  skipWhile isBlank
  let d ←
    if name == ['Y', 'A', 'M', 'L'] then version
    else if name == ['T', 'A', 'G'] then handleMeaning
    else failure
  skipWhile isBlank
  if (← head) == some '#' then skipWhile fun c => !isBreak c
  if !atLineEnd (← rest) then failure
  if !(← rest).isEmpty then skipBreak
  return d

end Denotation.Yaml.Reading
