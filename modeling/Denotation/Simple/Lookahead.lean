import Denotation.Simple.Scanner

/-!
# Lookahead

A lexer is a scanner with a queue of results that were looked at and not yet taken. However the calls
are mixed, it moves along the one sequence of results that the scanner gives. Every token that it
scans is written to its trace.
-/

namespace Denotation

/-- A scanner with the results that were scanned and not yet taken. -/
structure Lexer where
  /-- Where scanning goes on. -/
  scanner : Scanner
  /-- The results scanned and not yet taken, in order. -/
  queue : List ScanResult
  /-- What was written of the tokens scanned so far. -/
  scanned : Text

/-- A request for a result that lies before the first one. -/
structure OutOfRange where
  /-- The index that was asked for, counted from zero. -/
  index : Int
  deriving DecidableEq, Repr

/-- The text of the refusal. -/
def OutOfRange.message (e : OutOfRange) : Text :=
  Text.concat ["runtime error: index out of range [", Text.ofInt e.index, "]"]

namespace Lexer

/-- A lexer that has read nothing yet. -/
def ofScanner (s : Scanner) : Lexer := ⟨s, [], []⟩

/-- Scans one more result, and writes a line for it if it is a token. -/
def scan (l : Lexer) : ScanResult × Lexer :=
  let (r, s) := l.scanner.next
  match r with
  | .ok t => (r, { l with scanner := s, scanned := l.scanned ++ t.traceLine })
  | .error _ => (r, { l with scanner := s })

/-- Scans `n` more results onto the queue. -/
def fill : Nat → Lexer → Lexer
  | 0, l => l
  | n + 1, l =>
    let (r, l) := l.scan
    fill n { l with queue := l.queue ++ [r] }

/-- The result `count` places ahead, the next one being the first; nothing is taken. -/
def peek (l : Lexer) (count : Int) : Except OutOfRange ScanResult × Lexer :=
  let l := l.fill (count.toNat - l.queue.length)
  match count.toNat with
  | 0 => (.error ⟨count - 1⟩, l)
  | n + 1 =>
    match l.queue[n]? with
    | some r => (.ok r, l)
    | none => (.error ⟨count - 1⟩, l)

/-- Takes the next result. -/
def next (l : Lexer) : ScanResult × Lexer :=
  match l.queue with
  | r :: queue => (r, { l with queue })
  | [] => l.scan

/-- Drops the next result if it was looked at already. -/
def consume (l : Lexer) : Lexer := { l with queue := l.queue.drop 1 }

/-- The trace of what was scanned. -/
def trace (l : Lexer) : Text := l.scanned

end Lexer

end Denotation
