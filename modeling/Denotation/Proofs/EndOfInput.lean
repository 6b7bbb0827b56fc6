import Denotation.Proofs.Lookahead
import Denotation.Proofs.Segmentation

/-!
# The end of input

Scanning comes to an end and stays there. Every step but the last takes a character, whatever it
makes of it, and a character takes a byte; so there are no more steps than bytes before the end is
reached. There the scanner has nothing left to read and does not move, so it reports the end of input
at the same place as often as it is asked.

A source is scanned with `Scanner.results`, which stops at the first result that repeats, and with
`Scanner.nth`, which goes on for ever. The first lemmas say how the two go together.
-/

namespace Denotation

theorem Text.length_piecesFrom_le (k : Nat) (t : Text) : (Text.piecesFrom k t).length ≤ t.length := by
  induction t generalizing k with
  | nil => cases k <;> exact Nat.le_refl 0
  | cons a t ih =>
    cases k with
    | succ k => exact Nat.le_succ_of_le (ih k)
    | zero => exact Nat.succ_le_succ (ih _)

/-- A text has at most as many characters as bytes. -/
theorem Text.length_chars_le (t : Text) : t.chars.length ≤ t.length := by
  rw [Text.chars, List.length_map]
  exact Text.length_piecesFrom_le 0 t

/-! ## Results of scanning -/

namespace Scanner

variable {s : Scanner} {n k : Nat}

theorem after_succ (s : Scanner) (n : Nat) : s.after (n + 1) = s.next.2.after n := by
  induction n with
  | zero => rfl
  | succ n ih => rw [after, ih, after]

theorem first_succ_cons (s : Scanner) (n : Nat) :
    s.first (n + 1) = s.next.1 :: s.next.2.first n := by
  have hnth : ∀ k, s.nth (k + 1) = s.next.2.nth k := fun k => by rw [nth, after_succ, nth]
  simp only [first, List.range_succ_eq_map, List.map_cons, List.map_map]
  congr 1
  exact List.map_congr_left fun k _ => hnth k

theorem take_first (h : k ≤ n) : (s.first n).take k = s.first k := by
  rw [first, ← List.map_take, List.take_range, Nat.min_eq_left h, first]

theorem results_eq_first (s : Scanner) (n : Nat) : s.results n = s.first (s.results n).length := by
  induction n generalizing s with
  | zero => rfl
  | succ n ih =>
    rw [results_succ]
    split
    · rfl
    · rw [List.length_cons, first_succ_cons, ← ih]

theorem length_results_le (s : Scanner) (n : Nat) : (s.results n).length ≤ n := by
  induction n generalizing s with
  | zero => exact Nat.le_refl 0
  | succ n ih =>
    rw [results_succ]
    split
    · simp
    · exact Nat.succ_le_succ (ih _)

/-- The results of scanning are the first results of the scanner. -/
theorem stream_eq_first (s : Scanner) : s.stream = s.first s.stream.length := results_eq_first s _

/-- Scanning to the end gives a last result. -/
theorem exists_last_of_results (h : s.rest.length < n) :
    ∃ front r, s.results n = front ++ [r] ∧ r.isLast = true := by
  induction n generalizing s with
  | zero => exact absurd h (Nat.not_lt_zero _)
  | succ n ih =>
    rw [results_succ]
    by_cases hlast : s.next.1.isLast = true
    · rw [if_pos hlast]
      exact ⟨[], _, rfl, hlast⟩
    · rw [if_neg hlast]
      have hlt := length_next_lt (Bool.eq_false_of_not_eq_true hlast)
      obtain ⟨front, r, hresults, hr⟩ := ih (s := s.next.2) (by omega)
      exact ⟨s.next.1 :: front, r, by rw [hresults]; rfl, hr⟩

/-- Nothing is scanned after a last result. -/
theorem rest_of_results {front rest : List ScanResult} {r : ScanResult}
    (h : s.results n = front ++ r :: rest) (hr : r.isLast = true) : rest = [] := by
  induction n generalizing s front with
  | zero => simp [results] at h
  | succ n ih =>
    rw [results_succ] at h
    by_cases hlast : s.next.1.isLast = true
    · rw [if_pos hlast] at h
      cases front with
      | nil =>
        cases h
        rfl
      | cons x front => simp at h
    · rw [if_neg hlast] at h
      cases front with
      | nil =>
        cases h
        exact absurd hr hlast
      | cons x front => exact ih (List.cons.inj h).2

theorem ending_after (s : Scanner) (n : Nat) : (s.after n).ending = s.ending := by
  induction n with
  | zero => rfl
  | succ n ih => rw [after, (s.after n).source_next.2, ih]

/-- A source that is read to its end has no errors but characters that start no token. -/
theorem nth_error (h : s.ending = .complete) {err : ScanError} (hnth : s.nth n = .error err) :
    ∃ c loc, err = .unexpected c loc := by
  have hending := ending_after s n
  rw [h] at hending
  rw [nth] at hnth
  generalize s.after n = s' at hending hnth
  unfold next at hnth
  split at hnth
  · simp [atEnd, hending] at hnth
  · unfold readAt at hnth
    split at hnth
    · cases hnth
    · split at hnth
      · cases hnth
      · split at hnth
        · cases hnth
        · cases hnth
          exact ⟨_, _, rfl⟩

theorem error_of_mem_first (h : s.ending = .complete) {err : ScanError}
    (hmem : .error err ∈ s.first n) : ∃ c loc, err = .unexpected c loc := by
  obtain ⟨i, -, hi⟩ := List.mem_map.mp hmem
  exact nth_error h hi

/-! ## The last result repeats -/

theorem isLast_readAt (s : Scanner) (c : Char) (cs : List Char) (p : Position) :
    (s.readAt c cs p).1.isLast = false := by
  rcases s.readAt_cases c cs p with ⟨k, lexeme, rest, -, hmunch, hread⟩ | ⟨-, -, -, hread⟩
  · rw [hread]
    exact beq_eq_false_iff_ne.mpr hmunch.ne_ending
  · rw [hread]
    rfl

/-- A scanner at the end stays where it is. -/
theorem next_of_isLast (h : s.next.1.isLast = true) : s.next.2.next = s.next := by
  unfold next at h ⊢
  generalize skim false s.rest s.position = x at h
  obtain ⟨cs, p⟩ := x
  cases cs with
  | nil => rfl
  | cons c cs =>
    have hread := isLast_readAt s c cs p
    simp only at h
    rw [h] at hread
    cases hread

theorem nth_of_isLast (h : (s.nth n).isLast = true) (k : Nat) : s.nth (n + k) = s.nth n := by
  -- the scanner itself stays, and with it what it gives next
  have hstays : ∀ k, (s.after (n + k)).next = (s.after n).next := by
    intro k
    induction k with
    | zero => rfl
    | succ k ih =>
      have hlast : (s.after (n + k)).next.1.isLast = true := by
        rw [ih]
        exact h
      rw [← Nat.add_assoc, after, next_of_isLast hlast, ih]
  rw [nth, hstays, nth]

theorem first_of_isLast (h : (s.nth n).isLast = true) (k : Nat) :
    s.first (n + k) = s.first n ++ List.replicate k (s.nth n) := by
  induction k with
  | zero => simp
  | succ k ih =>
    rw [← Nat.add_assoc, first_succ, ih, nth_of_isLast h, List.replicate_succ', List.append_assoc]

/-- A source is scanned to results that are not the last, and then to the last one for ever. -/
theorem exists_front (s : Scanner) :
    ∃ front r, front.length ≤ s.rest.length ∧ r.isLast = true ∧
      (∀ r' ∈ front, r'.isLast = false) ∧
      ∀ k, s.first (front.length + k) = front ++ List.replicate k r := by
  obtain ⟨front, r, hresults, hr⟩ := exists_last_of_results (Nat.lt_succ_self s.rest.length)
  have hlength := length_results_le s (s.rest.length + 1)
  have hfirst := results_eq_first s (s.rest.length + 1)
  rw [hresults, List.length_append, List.length_singleton] at hlength hfirst
  rw [first_succ] at hfirst
  obtain ⟨hfront, hnth⟩ := List.append_inj' hfirst rfl
  obtain rfl := List.singleton_inj.mp hnth
  refine ⟨front, _, Nat.le_of_succ_le_succ hlength, hr, fun r' hr' => ?_, fun k => ?_⟩
  · by_contra hlast
    obtain ⟨before, after, hsplit⟩ := List.append_of_mem hr'
    rw [hsplit, List.append_assoc] at hresults
    have hnone := rest_of_results hresults (Bool.eq_true_of_not_eq_false hlast)
    simp at hnone
  · rw [first_of_isLast hr, ← hfront]

end Scanner

/-! ## Asking a lexer for one result after the other -/

namespace Lexer

/-- Takes so many results, one call after the other. -/
def nexts : Nat → Lexer → List ScanResult
  | 0, _ => []
  | n + 1, l => l.next.1 :: nexts n l.next.2

/-- A lexer that was never asked to look ahead takes what its scanner gives. -/
theorem nexts_eq_first {l : Lexer} (h : l.queue = []) (n : Nat) :
    l.nexts n = l.scanner.first n := by
  induction n generalizing l with
  | zero => rfl
  | succ n ih =>
    have hnext : l.next = l.scan := by
      unfold next
      rw [h]
    have hqueue : l.scan.2.queue = [] := l.queue_scan.trans h
    rw [nexts, hnext, ih hqueue, Scanner.first_succ_cons, scan_eq]

/-- Lexing ends. A lexer that is asked for one result after the other, and asked again after every
error, comes to the end of input within as many calls as the source has bytes and one more. On the
way there are tokens, and errors about characters that start none. Every later call returns that same
end of input, wherever the source ends. -/
theorem nexts_reach_ending (source file : Text) :
    ∃ front e, front.length + 1 ≤ source.length + 1 ∧ e.kind = .ending ∧
      (∀ r ∈ front, (∃ t, r = .ok t ∧ t.kind ≠ .ending) ∨
        ∃ c location, r = .error (.unexpected c location)) ∧
      ∀ k, (ofScanner (Scanner.ofText source file .complete)).nexts (front.length + k)
        = front ++ List.replicate k (.ok e) := by
  let s := Scanner.ofText source file .complete
  obtain ⟨front, r, hlength, hr, hfront, hfirst⟩ := s.exists_front
  have hchars : s.rest.length ≤ source.length := Text.length_chars_le source
  have hone : s.first (front.length + 1) = front ++ [r] := hfirst 1
  have herror : ∀ err, .error err ∈ front ++ [r] → ∃ c location, err = .unexpected c location := by
    intro err hmem
    rw [← hone] at hmem
    exact Scanner.error_of_mem_first rfl hmem
  obtain ⟨e, rfl, he⟩ : ∃ e, r = .ok e ∧ e.kind = .ending := by
    cases r with
    | ok e => exact ⟨e, rfl, beq_iff_eq.mp hr⟩
    | error err =>
      obtain ⟨c, location, rfl⟩ := herror err (by simp)
      cases hr
  refine ⟨front, e, by omega, he, fun r' hr' => ?_, fun k => ?_⟩
  · have hlast := hfront r' hr'
    cases r' with
    | ok t => exact Or.inl ⟨t, rfl, beq_eq_false_iff_ne.mp hlast⟩
    | error err =>
      obtain ⟨c, location, rfl⟩ := herror err (List.mem_append_left _ hr')
      exact Or.inr ⟨c, location, rfl⟩
  · rw [nexts_eq_first rfl]
    exact hfirst k

/-- A source that ends inside a comment. -/
example : (ofScanner (Scanner.ofText "1//" [] .complete)).nexts 3
    = [.ok ⟨.number, "1", ⟨[], 1, 1⟩⟩, .ok ⟨.ending, [], ⟨[], 1, 3⟩⟩,
      .ok ⟨.ending, [], ⟨[], 1, 3⟩⟩] := rfl

end Lexer

end Denotation
