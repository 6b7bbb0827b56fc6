import Denotation.Session.Basic
import Denotation.Text.Words

/-!
# Transcripts

The interactive prompt reads lines until the input ends or a line says `exit` or `quit`, and keeps a
history of the lines that were carried out. Lines are read through a buffer: a longer line comes in
parts.
-/

namespace Denotation

/-- The size of the buffer that lines are read through. -/
def lineBuffer : Nat := 4096

/-- The first line of a text without its end, whether it was cut off by the buffer, and the rest. A
line ends at a line feed, and a carriage return before it is part of the end; a carriage return that
fills the buffer is left for the next part. -/
def nextLine (t : Text) : Text × Bool × Text :=
  let head := t.take lineBuffer
  let line := head.takeWhile (· != 0x0A)
  if line.length == lineBuffer then
    if line.getLast? == some 0x0D then (line.dropLast, true, t.drop (lineBuffer - 1))
    else (line, true, t.drop lineBuffer)
  else
    let rest := t.drop (line.length + 1)
    let ended := line.length < t.length
    (if ended && line.getLast? == some 0x0D then line.dropLast else line, false, rest)

/-- The lines of a text, each with whether it was cut off by the buffer, for at most `n` lines. -/
def linesFrom : Nat → Text → List (Text × Bool)
  | 0, _ => []
  | _ + 1, [] => []
  | n + 1, t =>
    let (line, cut, rest) := nextLine t
    (line, cut) :: linesFrom n rest

/-- The lines of a text, each with whether it was cut off by the buffer. -/
def lines (t : Text) : List (Text × Bool) := linesFrom t.length t

/-- The lines that were carried out, in order. -/
abbrev History := List Text

namespace History

/-- How many lines a history keeps. -/
def limit : Nat := 1000

/-- The history with a line at its end and not too many before it. -/
def push (h : History) (line : Text) : History :=
  let h := h ++ [line]
  h.drop (h.length - limit)

/-- The history after a line was carried out: a line equal to the one before it is not kept. -/
def add (h : History) (line : Text) : History :=
  if h.getLast? == some line then h else h.push line

/-- The history that lines spell, up to the first that is cut off or is no UTF-8. -/
def ofLines : History → List (Text × Bool) → History
  | h, [] => h
  | h, (line, cut) :: rest => if cut || !line.isUtf8 then h else ofLines (h.push line) rest

/-- The history that a text spells. -/
def ofText (t : Text) : History := ofLines [] (lines t)

/-- The text of a history. -/
def text (h : History) : Text := h.flatMap fun line => line ++ "\n"

end History

/-- A session at the prompt. -/
structure Prompt where
  /-- The session. -/
  session : Session
  /-- The lines carried out. -/
  history : History

/-- What is printed when the prompt opens. -/
def Prompt.greeting : Text := "Simple, denotationally. Type ':help' for commands, Ctrl+D to quit.\n"

/-- What is printed before a line is read. -/
def Prompt.mark : Text := ">> "

/-- What a line at the prompt leads to. -/
inductive Turn where
  /-- The prompt closes. -/
  | leave
  /-- The prompt goes on after printing a text. -/
  | stay (output : Text) (p : Prompt)

/-- Takes one line; `none` when the fuel runs out. -/
def Prompt.take (p : Prompt) (fuel : Nat) (line : Text) : Option Turn :=
  let trimmed := line.trim
  if trimmed.isEmpty then some (.stay [] p)
  else if trimmed == Text.ofString "exit" || trimmed == Text.ofString "quit" then some .leave
  else
    (p.session.eval fuel false trimmed).map fun r =>
      .stay r.output ⟨r.session, p.history.add line⟩

/-- What the prompt prints for a list of lines, and its history at the end; `none` when the fuel runs
out. The end of the input ends the last line. -/
def Prompt.run (fuel : Nat) : Prompt → List Text → Option (Text × History)
  | p, [] => some (Prompt.mark ++ "\n", p.history)
  | p, line :: rest =>
    match p.take fuel line with
    | none => none
    | some .leave => some (Prompt.mark, p.history)
    | some (.stay output p) =>
      (p.run fuel rest).map fun (later, h) => (Text.concat [Prompt.mark, output, later], h)

end Denotation
