import Denotation.Text.Basic

/-!
# Completion

The last word of a line, as far as it is typed, is completed to the keywords and commands that start
with it.
-/

namespace Denotation

/-- The words that a line can be completed with, in the order they are offered. -/
def completionWords : List Text :=
  ["while", "if", "else", "do-nothing", "true", "false", ":targets", ":env", ":reset", ":ast",
    ":help", "exit"]

/-- Whether the byte ends a word. -/
def endsWord (b : UInt8) : Bool := (Text.ofString " ()\x7b\x7d;").contains b

/-- The lines that a line can be completed to. -/
def completions (line : Text) : List Text :=
  let word := (line.reverse.takeWhile fun b => !endsWord b).reverse
  let before := line.take (line.length - word.length)
  if word.isEmpty then []
  else (completionWords.filter fun w => w.startsWith word).map (before ++ ·)

end Denotation
