import Denotation.Proofs.Lexing
import Denotation.Proofs.Traces
import Denotation.Simple.Lookahead

/-!
# Lookahead is transparent

A scanner gives one sequence of results, the one that its steps give one after the other. A lexer on
that scanner moves along this sequence as a cursor does, however its calls are mixed: `Cursor`
holds no results at all, only the number of results that were taken and the number of results that
were scanned. The queue of the lexer is the part of the sequence between the two, and its trace the
text of the tokens that were scanned.
-/

namespace Denotation

namespace Scanner

/-- The scanner after so many steps. -/
def after (s : Scanner) : Nat → Scanner
  | 0 => s
  | n + 1 => (s.after n).next.2

/-- The result of a step, the first step being number zero. -/
def nth (s : Scanner) (n : Nat) : ScanResult := (s.after n).next.1

/-- The results of the first steps. -/
def first (s : Scanner) (n : Nat) : List ScanResult := (List.range n).map s.nth

theorem length_first (s : Scanner) (n : Nat) : (s.first n).length = n := by simp [first]

theorem first_succ (s : Scanner) (n : Nat) : s.first (n + 1) = s.first n ++ [s.nth n] := by
  simp [first, List.range_succ]

theorem getElem?_first {s : Scanner} {n i : Nat} (h : i < n) :
    (s.first n)[i]? = some (s.nth i) := by
  simp [first, List.getElem?_range h]

theorem drop_first_cons {s : Scanner} {n i : Nat} (h : i < n) :
    (s.first n).drop i = s.nth i :: (s.first n).drop (i + 1) := by
  have hlt : i < (s.first n).length := by rw [length_first]; exact h
  have hget : (s.first n)[i] = s.nth i := by
    have hsome := getElem?_first (s := s) h
    rw [List.getElem?_eq_getElem hlt] at hsome
    exact Option.some.inj hsome
  rw [List.drop_eq_getElem_cons hlt, hget]

theorem drop_first_self (s : Scanner) (n : Nat) : (s.first n).drop n = [] := by
  rw [List.drop_eq_nil_iff, length_first]

theorem file_after (s : Scanner) (n : Nat) : (s.after n).file = s.file := by
  induction n with
  | zero => rfl
  | succ n ih => exact (source_next (s.after n)).1.trans ih

/-- A scanner puts its label on every token. -/
theorem file_of_next {s : Scanner} {t : Token} (h : s.next.1 = .ok t) :
    t.location.file = s.file := by
  unfold next at h
  split at h
  · unfold atEnd at h
    split at h
    · cases h
      rfl
    · cases h
  · unfold readAt at h
    split at h
    · cases h
      rfl
    · split at h
      · cases h
        rfl
      · split at h
        · cases h
          rfl
        · cases h

end Scanner

/-- The tokens among results. -/
def tokensOf (results : List ScanResult) : List Token := results.filterMap Except.toOption

theorem tokensOf_append (rs rs' : List ScanResult) :
    tokensOf (rs ++ rs') = tokensOf rs ++ tokensOf rs' := List.filterMap_append

theorem flatMap_traceLine_append (rs : List ScanResult) (r : ScanResult) :
    (tokensOf (rs ++ [r])).flatMap Token.traceLine
      = (tokensOf rs).flatMap Token.traceLine ++ (tokensOf [r]).flatMap Token.traceLine := by
  rw [tokensOf_append, List.flatMap_append]

/-- The tokens among the first results of a scanner carry its label. -/
theorem file_of_mem_tokensOf {s : Scanner} {n : Nat} {t : Token} (h : t ∈ tokensOf (s.first n)) :
    t.location.file = s.file := by
  obtain ⟨r, hr, ht⟩ := List.mem_filterMap.mp h
  obtain ⟨i, -, rfl⟩ := List.mem_map.mp hr
  have hnext : (s.after i).next.1 = .ok t := by
    cases hx : s.nth i with
    | ok u =>
      rw [hx] at ht
      cases ht
      exact hx
    | error e =>
      rw [hx] at ht
      cases ht
  exact (Scanner.file_of_next hnext).trans (s.file_after i)

/-! ## Calls -/

/-- A call of a lexer; to peek is to look at the result that lies `ahead` places after the next. -/
inductive Call where
  | next
  | consume
  | peek (ahead : Nat)

/-- What a call returns; a call that drops a result returns nothing. -/
abbrev Answer := Option (Except OutOfRange ScanResult)

/-- Answers a call. -/
def Lexer.answer (l : Lexer) : Call → Answer × Lexer
  | .next => (some (.ok l.next.1), l.next.2)
  | .consume => (none, l.consume)
  | .peek ahead => (some (l.peek (ahead + 1)).1, (l.peek (ahead + 1)).2)

/-- Answers calls one after the other. -/
def Lexer.answers : List Call → Lexer → List Answer × Lexer
  | [], l => ([], l)
  | call :: calls, l =>
    ((l.answer call).1 :: (Lexer.answers calls (l.answer call).2).1,
      (Lexer.answers calls (l.answer call).2).2)

/-- A place in a sequence of results. -/
structure Cursor where
  /-- The number of results that were taken. -/
  position : Nat
  /-- The number of results that were scanned. -/
  reach : Nat
  deriving DecidableEq, Repr

namespace Cursor

/-- The cursor before the first result. -/
def start : Cursor := ⟨0, 0⟩

/-- What a cursor answers to a call. -/
def answer (results : Nat → ScanResult) (c : Cursor) : Call → Answer × Cursor
  | .next =>
    (some (.ok (results c.position)), ⟨c.position + 1, max c.reach (c.position + 1)⟩)
  | .consume => (none, if c.position < c.reach then ⟨c.position + 1, c.reach⟩ else c)
  | .peek ahead =>
    (some (.ok (results (c.position + ahead))),
      ⟨c.position, max c.reach (c.position + ahead + 1)⟩)

/-- What a cursor answers to calls one after the other. -/
def answers (results : Nat → ScanResult) : List Call → Cursor → List Answer × Cursor
  | [], c => ([], c)
  | call :: calls, c =>
    ((c.answer results call).1 :: (answers results calls (c.answer results call).2).1,
      (answers results calls (c.answer results call).2).2)

end Cursor

/-! ## The lexer follows the cursor -/

/-- The lexer, started on the scanner, stands where the cursor does. -/
structure Lexer.At (l : Lexer) (s : Scanner) (c : Cursor) : Prop where
  le : c.position ≤ c.reach
  queue : l.queue = (s.first c.reach).drop c.position
  scanner : l.scanner = s.after c.reach
  scanned : l.scanned = (tokensOf (s.first c.reach)).flatMap Token.traceLine

namespace Lexer

variable {l : Lexer} {s : Scanner} {c : Cursor}

theorem At.length_queue (h : l.At s c) : l.queue.length = c.reach - c.position := by
  rw [h.queue, List.length_drop, Scanner.length_first]

/-- Scanning moves the scanner and writes the line of a token. -/
theorem scan_eq (l : Lexer) :
    l.scan = (l.scanner.next.1, { l with
      scanner := l.scanner.next.2
      scanned := l.scanned ++ (tokensOf [l.scanner.next.1]).flatMap Token.traceLine }) := by
  unfold scan
  cases hr : l.scanner.next.1 with
  | ok t => simp [hr, tokensOf, Except.toOption]
  | error e => simp [hr, tokensOf, Except.toOption]

theorem queue_scan (l : Lexer) : l.scan.2.queue = l.queue := by rw [scan_eq]

theorem At.scan_fst (h : l.At s c) : l.scan.1 = s.nth c.reach := by
  rw [scan_eq, h.scanner]
  rfl

theorem At.scan_scanner (h : l.At s c) : l.scan.2.scanner = s.after (c.reach + 1) := by
  rw [scan_eq, h.scanner]
  rfl

theorem At.scan_scanned (h : l.At s c) :
    l.scan.2.scanned = (tokensOf (s.first (c.reach + 1))).flatMap Token.traceLine := by
  rw [scan_eq, h.scanned, h.scanner, Scanner.first_succ, flatMap_traceLine_append]
  rfl

/-- A result that is scanned onto the queue leaves the cursor where it is. -/
theorem At.scan_queue (h : l.At s c) :
    At { l.scan.2 with queue := l.queue ++ [l.scan.1] } s ⟨c.position, c.reach + 1⟩ where
  le := Nat.le_succ_of_le h.le
  queue := by
    have hle : c.position ≤ (s.first c.reach).length := by rw [Scanner.length_first]; exact h.le
    rw [Scanner.first_succ, List.drop_append_of_le_length hle, h.scan_fst, h.queue]
  scanner := h.scan_scanner
  scanned := h.scan_scanned

theorem At.fill (h : l.At s c) (n : Nat) : (l.fill n).At s ⟨c.position, c.reach + n⟩ := by
  induction n generalizing l c with
  | zero => exact h
  | succ n ih =>
    have hstep := ih h.scan_queue
    have hreach : c.reach + 1 + n = c.reach + (n + 1) := by omega
    rw [hreach, ← l.queue_scan] at hstep
    exact hstep

theorem At.answer_next (h : l.At s c) :
    (l.answer .next).1 = (c.answer s.nth .next).1 ∧
      (l.answer .next).2.At s (c.answer s.nth .next).2 := by
  have hqueue := h.queue
  have hle := h.le
  by_cases hlt : c.position < c.reach
  · rw [Scanner.drop_first_cons hlt] at hqueue
    have hnext : l.next
        = (s.nth c.position, { l with queue := (s.first c.reach).drop (c.position + 1) }) := by
      unfold next
      rw [hqueue]
    have hmax : max c.reach (c.position + 1) = c.reach := by omega
    simp only [answer, Cursor.answer, hnext, hmax, true_and]
    exact ⟨hlt, rfl, h.scanner, h.scanned⟩
  · have heq : c.position = c.reach := by omega
    rw [heq, Scanner.drop_first_self] at hqueue
    have hnext : l.next = l.scan := by
      unfold next
      rw [hqueue]
    have hempty : l.scan.2.queue = [] := l.queue_scan.trans hqueue
    have hmax : max c.reach (c.reach + 1) = c.reach + 1 := by omega
    simp only [answer, Cursor.answer, hnext, heq, hmax, h.scan_fst, true_and]
    refine ⟨Nat.le_refl _, ?_, h.scan_scanner, h.scan_scanned⟩
    rw [Scanner.drop_first_self, hempty]

theorem At.answer_consume (h : l.At s c) :
    (l.answer .consume).1 = (c.answer s.nth .consume).1 ∧
      (l.answer .consume).2.At s (c.answer s.nth .consume).2 := by
  refine ⟨rfl, ?_⟩
  have hqueue := h.queue
  simp only [answer, Cursor.answer]
  by_cases hlt : c.position < c.reach
  · rw [if_pos hlt]
    refine ⟨hlt, ?_, h.scanner, h.scanned⟩
    simp only [consume, hqueue, List.drop_drop]
  · rw [if_neg hlt]
    have heq : c.position = c.reach := Nat.le_antisymm h.le (Nat.le_of_not_lt hlt)
    refine ⟨h.le, ?_, h.scanner, h.scanned⟩
    rw [heq, Scanner.drop_first_self] at hqueue ⊢
    simp only [consume, hqueue, List.drop_nil]

theorem At.answer_peek (h : l.At s c) (ahead : Nat) :
    (l.answer (.peek ahead)).1 = (c.answer s.nth (.peek ahead)).1 ∧
      (l.answer (.peek ahead)).2.At s (c.answer s.nth (.peek ahead)).2 := by
  have hle := h.le
  have hcount : ((ahead : Int) + 1).toNat = ahead + 1 := by omega
  -- as many results are scanned as the queue lacks
  have hfill := h.fill (ahead + 1 - l.queue.length)
  have hreach : c.reach + (ahead + 1 - l.queue.length) = max c.reach (c.position + ahead + 1) := by
    rw [h.length_queue]
    omega
  rw [hreach] at hfill
  have hget : (l.fill (ahead + 1 - l.queue.length)).queue[ahead]?
      = some (s.nth (c.position + ahead)) := by
    rw [hfill.queue, List.getElem?_drop]
    exact Scanner.getElem?_first (by simp only; omega)
  have hpeek : l.peek (ahead + 1)
      = (.ok (s.nth (c.position + ahead)), l.fill (ahead + 1 - l.queue.length)) := by
    simp only [peek, hcount, hget]
  simp only [answer, Cursor.answer, hpeek, true_and]
  exact hfill

/-- A call moves the lexer as it moves the cursor, and the two give the same answer. -/
theorem At.answer (h : l.At s c) (call : Call) :
    (l.answer call).1 = (c.answer s.nth call).1 ∧
      (l.answer call).2.At s (c.answer s.nth call).2 := by
  cases call with
  | next => exact h.answer_next
  | consume => exact h.answer_consume
  | peek ahead => exact h.answer_peek ahead

theorem At.answers (h : l.At s c) (calls : List Call) :
    (l.answers calls).1 = (c.answers s.nth calls).1 ∧
      (l.answers calls).2.At s (c.answers s.nth calls).2 := by
  induction calls generalizing l c with
  | nil => exact ⟨rfl, h⟩
  | cons call calls ih =>
    obtain ⟨hfirst, hat⟩ := h.answer call
    obtain ⟨hrest, hend⟩ := ih hat
    refine ⟨?_, hend⟩
    simp only [Lexer.answers, Cursor.answers, hfirst, hrest]

theorem at_ofScanner (s : Scanner) : (ofScanner s).At s Cursor.start :=
  ⟨Nat.le_refl 0, rfl, rfl, rfl⟩

/-- Lookahead is transparent: whatever calls a lexer gets, in whatever order, it answers as a cursor
on the sequence of results of its scanner does. It has then scanned the results that the cursor
reaches and no others. Its trace holds a line for each token among them, in their order, and these
tokens and no others can be read back from it. -/
theorem answers_eq_cursor (s : Scanner) (calls : List Call) :
    ((ofScanner s).answers calls).1 = (Cursor.start.answers s.nth calls).1 ∧
      ((ofScanner s).answers calls).2.scanner = s.after (Cursor.start.answers s.nth calls).2.reach ∧
      ((ofScanner s).answers calls).2.trace
        = (tokensOf (s.first (Cursor.start.answers s.nth calls).2.reach)).flatMap (fun t =>
          Text.concat ["TOKEN: [", t.kind.display, " ", t.value.quote, " at ", t.location.file, ":",
            Text.ofInt t.location.row, ":", Text.ofInt t.location.col, "]\n"]) ∧
      ∀ ts, IsTrace s.file ts ((ofScanner s).answers calls).2.trace ↔
        ts = tokensOf (s.first (Cursor.start.answers s.nth calls).2.reach) := by
  obtain ⟨hanswers, hat⟩ := (at_ofScanner s).answers calls
  have htrace : IsTrace s.file (tokensOf (s.first (Cursor.start.answers s.nth calls).2.reach))
      ((ofScanner s).answers calls).2.trace := ⟨fun t ht => file_of_mem_tokensOf ht, hat.scanned⟩
  refine ⟨hanswers, hat.scanner, ?_, fun ts => ⟨fun h => h.unique htrace, ?_⟩⟩
  · rw [htrace.lines]
    exact congrArg (List.flatMap · _) (funext Token.traceLine_eq)
  · rintro rfl
    exact htrace

end Lexer

end Denotation
