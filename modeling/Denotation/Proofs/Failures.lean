import Denotation.CommandLine.Basic
import Denotation.Proofs.EndOfInput
import Denotation.Proofs.Viability

/-!
# Where parsing fails

Parsing fails at the first result that no program has there: the tokens before it start a program,
and no program starts with them and the result. What follows the result plays no part, and the lexer
has not scanned it.
-/

namespace Denotation

open Descent

/-! ## Programs that start with tokens -/

/-- Some program starts with the tokens. -/
def Root.Viable (root : Root) (ts : List Token) : Prop := ∃ us n, root.Derives (ts ++ us) n

section
variable {root : Root} {s rest : List ScanResult} {ts before : List Token} {t u : Token}
  {f : ParseFailure} {e : ParseError} {v : Node Empty}

theorem Root.viable_prefix (root : Root) : PrefixClosed root.Viable := by
  rintro ts us ⟨vs, n, h⟩
  exact ⟨us ++ vs, n, by rwa [← List.append_assoc]⟩

theorem Level.Derives.not_ending {x : Level} {v : Expr Empty} (h : x.Derives ts v) :
    ∀ t ∈ ts, t.kind ≠ .ending := by
  induction h with
  | ofAdd _ ih | ofMultiply _ ih | ofTerm _ ih => exact ih
  | lessThan _ ho _ ihl ihr | add _ ho _ ihl ihr | multiply _ ho _ ihl ihr =>
    simp only [List.forall_mem_append, List.forall_mem_cons, ho]
    exact ⟨ihl, by decide, ihr⟩
  | brackets hl _ hr ih =>
    simp only [List.cons_append, List.forall_mem_cons, List.forall_mem_append, hl, hr]
    exact ⟨by decide, ih, by decide, by simp⟩
  | number hk _ | name hk _ => simp [hk]
  | true h | false h => simp [h.1]

theorem Grade.Derives.not_ending {x : Grade} {a : Stmt Empty} (h : x.Derives ts a) :
    ∀ t ∈ ts, t.kind ≠ .ending := by
  induction h with
  | sequence _ ho _ iha ihb =>
    simp only [List.forall_mem_append, List.forall_mem_cons, ho]
    exact ⟨iha, by decide, ihb⟩
  | single _ ih => exact ih
  | loop hw hl hc hr ho _ hcl iha =>
    have hc := hc.not_ending
    simp only [List.cons_append, List.forall_mem_cons, List.forall_mem_append, hw.1, hl, hr, ho,
      hcl]
    exact ⟨by decide, by decide, ⟨hc, by decide, by decide, iha⟩, by decide, by simp⟩
  | branch hw hl hc hr ho _ hcl he ho' _ hcl' iha ihb =>
    have hc := hc.not_ending
    simp only [List.cons_append, List.forall_mem_cons, List.forall_mem_append, hw.1, hl, hr, ho,
      hcl, he.1, ho', hcl']
    exact ⟨by decide, by decide, ⟨⟨hc, by decide, by decide, iha⟩, by decide, by decide, by decide,
      ihb⟩, by decide, by simp⟩
  | assign hk _ hs he =>
    simp only [List.forall_mem_cons, hk, hs]
    exact ⟨by decide, by decide, he.not_ending⟩
  | doNothing hw => simp [hw.1]

/-- The end of input is no part of a program. -/
theorem Root.Viable.not_ending (h : root.Viable ts) : ∀ t ∈ ts, t.kind ≠ .ending := by
  obtain ⟨us, n, h⟩ := h
  have hall : ∀ t ∈ ts ++ us, t.kind ≠ .ending := by
    cases h with
    | statement h => exact h.not_ending
    | expression h => exact h.not_ending
  exact fun t ht => hall t (List.mem_append_left us ht)

theorem safe_program (n : Nat) (root : Root) :
    Safe root.Viable (fun _ _ _ => True) [] none (programDescent n root) := by
  have hroot : Safe root.Viable (fun taken _ v => root.Derives taken v) [] none
      (root.descent n) := by
    refine Root.accords n root root.Viable _ [] none root.viable_prefix (fun ts v hts => ?_)
      fun ts v _ hts => hts
    exact ⟨[], v, by simpa using hts⟩
  refine hroot.bind fun taken held v htaken => ?_
  have hviable : root.Viable taken := ⟨[], v, by simpa using htaken⟩
  refine ⟨hviable, fun t _ => ?_⟩
  show Safe root.Viable _ (taken ++ [t]) none ((Descent.ofExcept (judgeKind .ending t)).bind _)
  unfold judgeKind
  split
  · trivial
  · exact ⟨taken, t, by simp, hviable, Or.inl ⟨_, rfl⟩⟩

/-! ## Failures of the parser -/

/-- The tree comes to what the parser comes to. -/
theorem verdict_read_program {n : Nat} (root : Root) (hn : 4 * s.length + 4 ≤ n) :
    ((programDescent n root).read none s).verdict = some (parseResults root s) := by
  cases hparse : parseResults root s with
  | ok v =>
    obtain ⟨t, rest, htakes, ht⟩ := parseResults_eq_ok_iff.mp hparse
    rw [read_program_of_takes hn htakes ht]
    rfl
  | error f =>
    rw [read_program_of_error hn hparse]
    rfl

/-- What the tree stops at, the parser fails at. -/
theorem parseResults_of_read {n : Nat} (hn : 4 * s.length + 4 ≤ n)
    (h : (programDescent n root).read none s = .stopped e rest) :
    parseResults root s = .error ⟨e, rest⟩ := by
  have hverdict := verdict_read_program root hn
  rw [h] at hverdict
  exact (Option.some.inj hverdict).symm

/-- What follows the result that parsing fails at plays no part. -/
theorem parseResults_frame (h : parseResults root s = .error f) (he : f.error ≠ .cutOff) :
    ∃ front, s = front ++ f.rest ∧
      ∀ rest, parseResults root (front ++ rest) = .error ⟨f.error, rest⟩ := by
  obtain ⟨front, rfl, -⟩ := read_frame (read_program_of_error (Nat.le_refl _) h) he
  refine ⟨front, rfl, fun rest => ?_⟩
  -- one bound that is high enough for both lists
  let n := 4 * (front ++ f.rest).length + 4 + (4 * (front ++ rest).length + 4)
  have hread := read_program_of_error (n := n) (by omega) h
  obtain ⟨front', hfront, hframe⟩ := read_frame hread he
  obtain rfl := List.append_cancel_right hfront
  exact parseResults_of_read (n := n) (by omega) (hframe rest)

/-- A number that is refused for not being wanted is refused like any other in its place. -/
theorem parseResults_number {front : List ScanResult} {w : Wanted} (ht : t.kind = .number)
    (hu : u.kind = .number)
    (h : parseResults root (front ++ .ok t :: rest) = .error ⟨.unexpected t w, rest⟩) :
    parseResults root (front ++ .ok u :: rest) = .error ⟨.unexpected u w, rest⟩ := by
  have hread := read_program_of_error (Nat.le_refl _) h
  have hlength : (front ++ .ok t :: rest).length = (front ++ .ok u :: rest).length := by simp
  exact parseResults_of_read (by rw [hlength]) ((uniform_program _ root).read_number ht hu hread)

/-- Tokens that no continuation saves start no program. -/
theorem not_viable_of_fails
    (h : ∀ rest, ∃ f, parseResults root (ts.map .ok ++ rest) = .error f) : ¬ root.Viable ts := by
  rintro ⟨us, v, hderives⟩
  obtain ⟨t, ht⟩ := exists_token .ending
  obtain ⟨f, hf⟩ := h (us.map .ok ++ [.ok t])
  have htakes : Takes (parseRoot root ((ts ++ us).map .ok ++ [.ok t])) v [.ok t] :=
    hderives.takes ht
  have hok := parseResults_eq_ok_iff.mpr ⟨t, [], htakes, ht⟩
  rw [List.map_append, List.append_assoc, hf] at hok
  cases hok

end

theorem tokensOf_map_ok (ts : List Token) : tokensOf (ts.map .ok) = ts := by
  induction ts with
  | nil => rfl
  | cons t ts ih => exact congrArg (t :: ·) ih

/-- Where a result stands, if it tells. -/
def ScanResult.location? : ScanResult → Option Location
  | .ok t => some t.location
  | .error (.unexpected _ loc) => some loc
  | .error (.unreadable _) => none

/-- The token that an error refuses. -/
def ParseError.token? : ParseError → Option Token
  | .unexpected t _ | .badNumber t => some t
  | .scan _ | .cutOff => none

/-- The token is a number that is no signed 64-bit integer. -/
def Token.IsRejected (t : Token) : Prop := t.kind = .number ∧ Text.toInt64? t.value = none

/-- A number can follow the tokens. -/
def Root.WantsNumber (root : Root) (ts : List Token) : Prop :=
  ∃ u : Token, u.kind = .number ∧ root.Viable (ts ++ [u])

/-- Parsing fails in time at a result, after the tokens before it and with the error. -/
structure Root.FailsAt (root : Root) (before : List Token) (r : ScanResult) (e : ParseError) :
    Prop where
  /-- Some program starts with the tokens. -/
  viable : root.Viable before
  /-- No program starts with them and the result. -/
  blocked : ∀ t, r = .ok t → ¬ root.Viable (before ++ [t])
  /-- If the result is the end of input, the tokens are no program. -/
  unfinished : ∀ t, r = .ok t → t.kind = .ending → ∀ n, ¬ root.Derives before n
  /-- A result that is no token is a character that starts none. -/
  lexical : ∀ err, r = .error err → e = .scan err ∧ ∃ c loc, err = .unexpected c loc
  /-- A number that is no integer is out of range where a number can stand. -/
  number : ∀ t, r = .ok t → t.IsRejected → root.WantsNumber before → e = .badNumber t
  /-- Any other token is not expected. -/
  token : ∀ t, r = .ok t → ¬ (t.IsRejected ∧ root.WantsNumber before) → ∃ w, e = .unexpected t w
  /-- The error tells where the result stands. -/
  place : ∃ loc, r.location? = some loc ∧ Text.ofString " at " ++ loc.display <:+ e.message

section
variable {root : Root} {before : List Token} {t : Token} {e : ParseError} {rest : List ScanResult}

theorem message_unexpected (t : Token) (w : Wanted) :
    Text.ofString " at " ++ t.location.display <:+ (ParseError.unexpected t w).message :=
  ⟨Text.concat ["token not expected: expected: ", w.display, ", given ", t.given], by
    simp [ParseError.message, Text.concat]⟩

theorem message_badNumber (t : Token) :
    Text.ofString " at " ++ t.location.display <:+ (ParseError.badNumber t).message :=
  ⟨Text.concat ["number out of range: ", t.value], by simp [ParseError.message, Text.concat]⟩

theorem message_scan (c : Char) (loc : Location) :
    Text.ofString " at " ++ loc.display <:+ (ParseError.scan (.unexpected c loc)).message :=
  ⟨Text.concat ["unexpected rune: ", Text.quoteChar c], by
    simp [ParseError.message, ScanError.message, Text.concat]⟩

theorem failsAt_error {c : Char} {loc : Location} (h : root.Viable before) :
    root.FailsAt before (.error (.unexpected c loc)) (.scan (.unexpected c loc)) where
  viable := h
  blocked t ht := nomatch ht
  unfinished t ht := nomatch ht
  lexical err herr := by
    cases herr
    exact ⟨rfl, c, loc, rfl⟩
  number t ht := nomatch ht
  token t ht := nomatch ht
  place := ⟨loc, rfl, message_scan c loc⟩

/-- No program starts with the tokens up to one that parsing fails at. -/
theorem not_viable_of_error (he : e ≠ .cutOff)
    (h : parseResults root (before.map .ok ++ .ok t :: rest) = .error ⟨e, rest⟩) :
    ¬ root.Viable (before ++ [t]) := by
  obtain ⟨front, hfront, hframe⟩ := parseResults_frame h he
  refine not_viable_of_fails fun rest' => ⟨⟨e, rest'⟩, ?_⟩
  have hsplit : (before ++ [t]).map .ok ++ rest = front ++ rest := by
    rw [List.map_append, List.append_assoc]
    exact hfront
  rw [List.append_cancel_right hsplit]
  exact hframe rest'

theorem failsAt_token
    (hparse : parseResults root (before.map .ok ++ .ok t :: rest) = .error ⟨e, rest⟩)
    (h : Blames root.Viable before t e) : root.FailsAt before (.ok t) e := by
  obtain ⟨hviable, hreason⟩ := h
  have he : e ≠ .cutOff := by
    rcases hreason with ⟨w, rfl⟩ | ⟨rfl, -⟩ <;> simp
  refine ⟨hviable, ?_, ?_, ?_, ?_, ?_, ?_⟩
  · rintro u ⟨⟩
    exact not_viable_of_error he hparse
  · rintro u ⟨⟩ hending n hderives
    have hok := parseResults_eq_ok_iff.mpr ⟨t, rest, hderives.takes hending, hending⟩
    rw [hparse] at hok
    cases hok
  · rintro err ⟨⟩
  · rintro u ⟨⟩ hrejected ⟨u, hu, hwanted⟩
    rcases hreason with ⟨w, rfl⟩ | ⟨rfl, -⟩
    · -- then the number that can stand there would be refused as well
      have hother := parseResults_number hrejected.1 hu hparse
      exact absurd hwanted (not_viable_of_error (by simp) hother)
    · rfl
  · rintro u ⟨⟩ hnot
    rcases hreason with hexpected | ⟨rfl, hnumber, hvalue, hwants⟩
    · exact hexpected
    · exact absurd ⟨⟨hnumber, hvalue⟩, hwants⟩ hnot
  · refine ⟨t.location, rfl, ?_⟩
    rcases hreason with ⟨w, rfl⟩ | ⟨rfl, -⟩
    · exact message_unexpected t w
    · exact message_badNumber t

end

/-! ## The parser and its lexer -/

/-- Parses with a lexer. A token takes the tree four levels down at most, so the bound on its depth
is never met. -/
def Lexer.parse (root : Root) (l : Lexer) : Option (Except ParseError (Node Empty) × Lexer) :=
  (programDescent (4 * (l.scanner.rest.length + 2)) root).run l

section
variable {root : Root} {s : Scanner}

theorem bound_le (s : Scanner) : 4 * s.stream.length + 4 ≤ 4 * (s.rest.length + 2) := by
  have := Scanner.length_results_le s (s.rest.length + 1)
  rw [Scanner.stream]
  omega

/-- What the parser makes of the results of scanning, it makes of a lexer. -/
theorem tracks_parse (root : Root) (s : Scanner) :
    Tracks s s.stream.length
      ((programDescent (4 * (s.rest.length + 2)) root).read none s.stream)
      ((Lexer.ofScanner s).parse root) := by
  have htracks := tracks_read (programDescent (4 * (s.rest.length + 2)) root)
    (Lexer.faces_ofScanner s) (Nat.zero_le s.stream.length)
  rwa [List.drop_zero, ← Scanner.stream_eq_first] at htracks

/-- Tokens alone are not all that a source is scanned to: there is the end of input. -/
theorem not_viable_stream {ts : List Token} (h : s.stream = ts.map .ok) : ¬ root.Viable ts := by
  intro hviable
  obtain ⟨front, r, hlast, hr⟩ := Scanner.exists_last_of_results (Nat.lt_succ_self s.rest.length)
  have hmem : r ∈ ts.map .ok := by
    rw [← h, Scanner.stream, hlast]
    simp
  obtain ⟨t, ht, rfl⟩ := List.mem_map.mp hmem
  exact hviable.not_ending t ht (beq_iff_eq.mp hr)

/-- A parse of a source that is read to its end fails in time. -/
theorem exists_failsAt {f : ParseFailure} (hs : s.ending = .complete)
    (h : parseResults root s.stream = .error f) :
    ∃ before r, s.stream = before.map .ok ++ r :: f.rest ∧ root.FailsAt before r f.error := by
  have hread := read_program_of_error (bound_le s) h
  have hstops : StopsAt root.Viable [] s.stream f.rest f.error := (safe_program _ root).stops hread
  obtain ⟨e, rest⟩ := f
  cases hstops with
  | @error ts err hunread hviable =>
    have hmem : .error err ∈ s.first s.stream.length := by
      rw [← Scanner.stream_eq_first, hunread]
      simp
    obtain ⟨c, loc, rfl⟩ := Scanner.error_of_mem_first hs hmem
    exact ⟨ts, _, hunread, failsAt_error hviable⟩
  | ending ts hunread hviable => exact absurd hviable (not_viable_stream hunread)
  | @token ts before t _ hunread hlooked hblames =>
    have hts : ts = before ++ [t] := hlooked
    have hsplit : s.stream = before.map .ok ++ .ok t :: rest := by
      rw [hunread, hts, List.map_append, List.append_assoc]
      rfl
    rw [hsplit] at h
    exact ⟨before, .ok t, hsplit, failsAt_token h hblames⟩

/-- An error about a token refuses that token. -/
theorem Root.FailsAt.token?_eq {before : List Token} {t : Token} {e : ParseError}
    (h : root.FailsAt before (.ok t) e) : e.token? = some t := by
  by_cases hnumber : t.IsRejected ∧ root.WantsNumber before
  · rw [h.number t rfl hnumber.1 hnumber.2]
    rfl
  · obtain ⟨w, rfl⟩ := h.token t rfl hnumber
    rfl

theorem Root.FailsAt.ne_cutOff {before : List Token} {r : ScanResult} {e : ParseError}
    (h : root.FailsAt before r e) : e ≠ .cutOff := by
  rintro rfl
  cases r with
  | error err => cases (h.lexical err rfl).1
  | ok t => cases h.token?_eq

/-- A lexer that has read up to a result of the stream has read the results before it. -/
theorem first_of_stream {ts : List Token} {r : ScanResult} {rest : List ScanResult} {reach : Nat}
    (hstream : s.stream = ts.map .ok ++ r :: rest) (hle : reach ≤ s.stream.length)
    (hrest : rest = (s.first s.stream.length).drop reach) :
    reach = ts.length + 1 ∧ s.first (ts.length + 1) = ts.map .ok ++ [r] := by
  have hlength : s.stream.length = ts.length + 1 + rest.length := by
    rw [hstream]
    simp
    omega
  have hdrop : rest.length = s.stream.length - reach := by
    rw [hrest, List.length_drop, Scanner.length_first]
  refine ⟨by omega, ?_⟩
  have htake := Scanner.take_first (s := s) (show ts.length + 1 ≤ s.stream.length by omega)
  rw [← htake, ← Scanner.stream_eq_first, hstream]
  have happend : ts.map .ok ++ r :: rest = (ts.map .ok ++ [r]) ++ rest := by simp
  rw [happend]
  exact List.take_left' (by simp)

/-- A failed parse leaves the lexer behind the result that it failed at. -/
theorem parse_lexer_error {f : ParseFailure} (hs : s.ending = .complete)
    (h : parseResults root s.stream = .error f) :
    ∃ l before r, (Lexer.ofScanner s).parse root = some (.error f.error, l) ∧
      s.first (before.length + 1) = before.map .ok ++ [r] ∧
      CommandLine.looked s.stream (.error f) = before.map .ok ++ [r] ∧
      root.FailsAt before r f.error ∧ l.HasScanned s (before.length + 1) := by
  obtain ⟨before, r, hstream, hfails⟩ := exists_failsAt hs h
  have htracks := tracks_parse root s
  rw [read_program_of_error (bound_le s) h] at htracks
  obtain ⟨l, reach, hrun, hl, hle, hrest⟩ := htracks.of_stopped hfails.ne_cutOff
  obtain ⟨rfl, hfirst⟩ := first_of_stream hstream hle hrest
  refine ⟨l, before, r, hrun, hfirst, ?_, hfails, hl⟩
  have happend : s.stream = (before.map .ok ++ [r]) ++ f.rest := by simp [hstream]
  have hlength : s.stream.length - f.rest.length
      = (before.map .ok ++ [r] : List ScanResult).length := by
    rw [happend, List.length_append]
    omega
  rw [CommandLine.looked, hlength, happend, List.take_left]

/-- A parse that succeeds leaves the lexer behind the end of input. -/
theorem parse_lexer_ok {v : Node Empty} (h : parseResults root s.stream = .ok v) :
    ∃ l ts e, (Lexer.ofScanner s).parse root = some (.ok v, l) ∧
      s.first (ts.length + 1) = ts.map .ok ++ [.ok e] ∧ s.stream = ts.map .ok ++ [.ok e] ∧
      root.Derives ts v ∧ e.kind = .ending ∧ l.HasScanned s (ts.length + 1) := by
  obtain ⟨e, rest, htakes, he⟩ := parseResults_eq_ok_iff.mp h
  obtain ⟨ts, hstream, hts⟩ := Root.sound htakes
  have htracks := tracks_parse root s
  rw [read_program_of_takes (bound_le s) htakes he] at htracks
  obtain ⟨l, reach, hrun, hl, hle, hrest⟩ := htracks.of_done
  obtain ⟨rfl, hfirst⟩ := first_of_stream hstream hle hrest
  have hnone : rest = [] := Scanner.rest_of_results hstream (beq_iff_eq.mpr he)
  exact ⟨l, ts, e, hrun, hfirst, by rw [hstream, hnone], hts, he, hl.toHasScanned⟩

end

/-- Parsing with a lexer comes to the same as parsing all results. -/
theorem exists_lexer (root : Root) (source : Text) :
    ∃ l, (Lexer.ofScanner (Scanner.ofText source [] .complete)).parse root
      = some (parse root source, l) := by
  have hparse : parse root source = (parseResults root
      (Scanner.ofText source [] .complete).stream).mapError ParseFailure.error := rfl
  cases h : parseResults root (Scanner.ofText source [] .complete).stream with
  | error f =>
    obtain ⟨l, before, r, hrun, -⟩ := parse_lexer_error rfl h
    exact ⟨l, by rw [hrun, hparse, h]; rfl⟩
  | ok v =>
    obtain ⟨l, ts, e, hrun, -⟩ := parse_lexer_ok h
    exact ⟨l, by rw [hrun, hparse, h]; rfl⟩

/-- The parser notices an error at once and reads no further. It comes to the same as the parser
that is given all results. If it fails, it does so at the first result that no program has there,
and the lexer has scanned that result and no later one. If it succeeds, the lexer has scanned every
token of the program once and one end of input. What the lexer has scanned is what the command line
traces. -/
theorem parse_stops_in_time (root : Root) (source : Text) :
    ∃ l, (Lexer.ofScanner (Scanner.ofText source [] .complete)).parse root
        = some (parse root source, l) ∧
      (∀ e, parse root source = .error e → ∃ before r,
        (Scanner.ofText source [] .complete).first (before.length + 1) = before.map .ok ++ [r] ∧
        root.FailsAt before r e ∧
        l.HasScanned (Scanner.ofText source [] .complete) (before.length + 1) ∧
        CommandLine.looked (Scanner.ofText source [] .complete).stream
          (parseResults root (Scanner.ofText source [] .complete).stream)
            = before.map .ok ++ [r]) ∧
      (∀ n, parse root source = .ok n → ∃ ts e,
        (Scanner.ofText source [] .complete).first (ts.length + 1) = ts.map .ok ++ [.ok e] ∧
        (∀ t ∈ ts, t.kind ≠ .ending) ∧ e.kind = .ending ∧ IsTrace [] (ts ++ [e]) l.trace ∧
        l.HasScanned (Scanner.ofText source [] .complete) (ts.length + 1) ∧
        CommandLine.looked (Scanner.ofText source [] .complete).stream
          (parseResults root (Scanner.ofText source [] .complete).stream)
            = ts.map .ok ++ [.ok e]) := by
  let s := Scanner.ofText source [] .complete
  have hparse : parse root source = (parseResults root s.stream).mapError ParseFailure.error := rfl
  cases h : parseResults root s.stream with
  | error f =>
    rw [h] at hparse
    obtain ⟨l, before, r, hrun, hfirst, hlooked, hfails, hl⟩ := parse_lexer_error rfl h
    refine ⟨l, by rw [hrun, hparse]; rfl, fun e he => ?_, fun n hn => ?_⟩
    · rw [hparse] at he
      cases he
      exact ⟨before, r, hfirst, hfails, hl, hlooked⟩
    · rw [hparse] at hn
      cases hn
  | ok v =>
    rw [h] at hparse
    obtain ⟨l, ts, e, hrun, hfirst, hstream, hts, he, hl⟩ := parse_lexer_ok h
    refine ⟨l, by rw [hrun, hparse]; rfl, fun e' he' => ?_, fun n _ => ?_⟩
    · rw [hparse] at he'
      cases he'
    · have hviable : root.Viable ts := ⟨[], v, by simpa using hts⟩
      have htokens : tokensOf (s.first (ts.length + 1)) = ts ++ [e] := by
        rw [hfirst, tokensOf_append, tokensOf_map_ok]
        rfl
      have htrace : IsTrace [] (ts ++ [e]) l.trace :=
        ⟨htokens ▸ fun t ht => file_of_mem_tokensOf ht, htokens ▸ hl.scanned⟩
      exact ⟨ts, e, hfirst, hviable.not_ending, he, htrace, hl, hstream⟩

/-- Where no number can stand, a number that is no integer is refused for not being expected. -/
theorem parse_number_after_number :
    (Scanner.ofText "1 99999999999999999999" [] .complete).first 2
        = [.ok ⟨.number, "1", ⟨[], 1, 1⟩⟩, .ok ⟨.number, "99999999999999999999", ⟨[], 1, 3⟩⟩] ∧
      (⟨.number, "99999999999999999999", ⟨[], 1, 3⟩⟩ : Token).IsRejected ∧
      parse .expression "1 99999999999999999999"
        = .error (.unexpected ⟨.number, "99999999999999999999", ⟨[], 1, 3⟩⟩ (.kind .ending)) := by
  refine ⟨rfl, ⟨rfl, by decide⟩, ?_⟩
  obtain ⟨l, hl⟩ := exists_lexer .expression "1 99999999999999999999"
  have hrun : ((Lexer.ofScanner (Scanner.ofText "1 99999999999999999999" [] .complete)).parse
      .expression).map Prod.fst = some (.error
        (.unexpected ⟨.number, "99999999999999999999", ⟨[], 1, 3⟩⟩ (.kind .ending))) := rfl
  rw [hl] at hrun
  exact Option.some.inj hrun

end Denotation
