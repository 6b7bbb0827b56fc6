import Denotation.Text.Basic

/-!
# Paths

A path is a text of names with slashes between them. Everything here is decided by the text alone: no
file is looked at.

A path in clean form has no empty name, no `.`, and `..` only at the front of a path that does not
start at the root; `clean` puts a path in that form without changing what it leads to, as long as no
name on the way stands for a link.
-/

namespace Denotation.Path

/-- The byte between names. -/
def slash : UInt8 := 0x2F

/-- The name of a directory in itself. -/
def here : Text := "."

/-- The name of the directory above. -/
def above : Text := ".."

/-- Whether the path starts at the root. -/
def isAbsolute (p : Text) : Bool := p.head? == some slash

/-- The names of a path, without those that lead nowhere. -/
def names (p : Text) : List Text :=
  (Text.splitOn slash p).filter fun name => !name.isEmpty && name != here

/-- Takes each `..` back with the name before it. The names before are given last first; at the root
there is nothing above. -/
def fold (rooted : Bool) : List Text → List Text → List Text
  | before, [] => before.reverse
  | before, name :: rest =>
    if name == above then
      match before with
      | [] => fold rooted (if rooted then [] else [above]) rest
      | last :: earlier =>
        if last == above then fold rooted (above :: before) rest else fold rooted earlier rest
    else fold rooted (name :: before) rest

/-- The path in clean form. -/
def clean (p : Text) : Text :=
  let body := Text.join [slash] (fold (isAbsolute p) [] (names p))
  if isAbsolute p then slash :: body else if body.isEmpty then here else body

/-- One path after the other, in clean form; an empty path is passed over. -/
def append (p q : Text) : Text :=
  if p.isEmpty then if q.isEmpty then [] else clean q else clean (Text.concat [p, [slash], q])

/-- The text after the last slash. -/
def afterSlash (p : Text) : Text := (p.reverse.takeWhile (· != slash)).reverse

/-- The text up to the last slash. -/
def upToSlash (p : Text) : Text := (p.reverse.dropWhile (· != slash)).reverse

/-- The path of the directory that a path lies in. -/
def directory (p : Text) : Text := clean (upToSlash p)

/-- The path without slashes at its end. -/
def trimSlashes (p : Text) : Text := (p.reverse.dropWhile (· == slash)).reverse

/-- The last name of a path. -/
def lastName (p : Text) : Text :=
  if p.isEmpty then here
  else
    let name := afterSlash (trimSlashes p)
    if name.isEmpty then [slash] else name

/-- The last name of a path from its last dot on. -/
def suffix (p : Text) : Text :=
  let name := afterSlash p
  if name.contains 0x2E then 0x2E :: (name.reverse.takeWhile (· != 0x2E)).reverse else []

/-- The path without its suffix. -/
def stem (p : Text) : Text := p.take (p.length - (suffix p).length)

/-- The path from the root, for a path that starts at a working directory. -/
def absolute (working p : Text) : Text := if isAbsolute p then clean p else append working p

/-- Where the rendering of a source file is written: beside the source, or in the directory for output
if there is one, under the name of the source with another suffix. -/
def output (source outDir suffix : Text) : Text :=
  (if outDir.isEmpty then stem source else append outDir (lastName (stem source))) ++ suffix

end Denotation.Path
