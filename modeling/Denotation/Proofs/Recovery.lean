import Denotation.Proofs.EndOfInput
import Denotation.Proofs.Spelling

/-!
# Going on after an error

A character that starts no token is reported, and scanning goes on. `Recovers` says what a scanner
gives that goes on right after that character: whatever is refused on the way, every token of the
source comes out, and each at the place where it stands.

A slash starts a comment only with a second slash behind it, so the scanner has to look at one more
character before it can refuse the first. It does not put that character back. `StraySlash` says
which sources have such a slash with something behind it; on all others nothing is lost.
-/

namespace Denotation

/-! ## Sources and what they are scanned to -/

/-- The location of a position in a file. -/
def Position.inFile (p : Position) (file : Text) : Location := ⟨file, p.row, p.col⟩

/-- The results of a scan that loses nothing, of the characters after those that were read before. -/
inductive Recovers (file : Text) (ending : SourceEnd) :
    List Char → List Char → List ScanResult → Prop where
  | token {before gap lexeme rest : List Char} {k : TokenKind} {rs : List ScanResult}
      (hgap : Spacing gap) (hmunch : Munch k lexeme rest)
      (h : Recovers file ending (before ++ gap ++ lexeme) rest rs) :
      Recovers file ending before (gap ++ (lexeme ++ rest))
        (.ok ⟨k, Text.ofChars lexeme, (Position.past (before ++ gap)).inFile file⟩ :: rs)
  | refused {before gap rest : List Char} {c : Char} {rs : List ScanResult}
      (hgap : Spacing gap) (hc : Rejected c rest)
      (h : Recovers file ending (before ++ gap ++ [c]) rest rs) :
      Recovers file ending before (gap ++ c :: rest)
        (.error (.unexpected c ((Position.past (before ++ gap)).inFile file)) :: rs)
  | ends {before gap : List Char} (hgap : Spacing gap) (he : ending = .complete) :
      Recovers file ending before gap
        [.ok ⟨.ending, [], (Position.past (before ++ gap)).inFile file⟩]
  -- no token stands in a comment that no line break ends; for the place see `next_unfinished`
  | endsInComment {before gap body : List Char} {p : Position} (hgap : Spacing gap)
      (hbody : '\n' ∉ body) (he : ending = .complete) :
      Recovers file ending before (gap ++ '/' :: '/' :: body) [.ok ⟨.ending, [], p.inFile file⟩]
  | unreadable {before rest : List Char} {reason : Text} (h : Trailing rest)
      (he : ending = .failure reason) :
      Recovers file ending before rest [.error (.unreadable reason)]

/-- Somewhere in the source a slash that starts no comment stands where a token could start, and some
character stands behind it. -/
inductive StraySlash : List Char → Prop where
  | here {gap rest : List Char} (hgap : Spacing gap) (hrest : rest ≠ [])
      (hhead : rest.head? ≠ some '/') : StraySlash (gap ++ '/' :: rest)
  | token {gap lexeme rest : List Char} {k : TokenKind} (hgap : Spacing gap)
      (hmunch : Munch k lexeme rest) (h : StraySlash rest) : StraySlash (gap ++ (lexeme ++ rest))
  | refused {gap rest : List Char} {c : Char} (hgap : Spacing gap) (hc : Rejected c rest)
      (h : StraySlash rest) : StraySlash (gap ++ c :: rest)

/-- If the next step refuses a character, the step after it starts with the character behind that. -/
def Scanner.Resumes (s : Scanner) : Prop :=
  ∀ c location, s.next.1 = .error (.unexpected c location) →
    ∃ gap, Spacing gap ∧ s.rest = gap ++ c :: s.next.2.rest

/-! ## Spacing is skipped -/

theorem skim_body {body : List Char} (h : '\n' ∉ body) (rest : List Char) (p : Position) :
    skim true (body ++ '\n' :: rest) p = skim false rest p.newline := by
  induction body with
  | nil => exact skim_newline true rest p
  | cons c body ih =>
    have hc : c ≠ '\n' := fun hc => h (hc ▸ List.mem_cons_self)
    have hstep : skim true (c :: (body ++ '\n' :: rest)) p = skim true (body ++ '\n' :: rest) p := by
      simp [skim, hc]
    rw [List.cons_append, hstep]
    exact ih fun hmem => h (List.mem_cons_of_mem _ hmem)

theorem skim_unfinished {body : List Char} (h : '\n' ∉ body) (p : Position) :
    skim true body p = ([], p) := by
  rcases skim_comment body p with ⟨-, heq⟩ | ⟨body', rest, rfl, -, -⟩
  · exact heq
  · simp at h

theorem skim_spacing {gap : List Char} (h : Spacing gap) (before rest : List Char) :
    skim false (gap ++ rest) (.past before) = skim false rest (.past (before ++ gap)) := by
  induction h generalizing before with
  | none => rw [List.append_nil, List.nil_append]
  | @blank c cs hc h ih =>
    have hstep : skim false (c :: (cs ++ rest)) (.past before)
        = skim false (cs ++ rest) (.past (before ++ [c])) := by
      by_cases hline : c = '\n'
      · rw [hline, skim_newline, Position.past_newline]
      · have hplain : '\n' ∉ [c] := by simpa using Ne.symm hline
        have hpast := Position.past_append hplain before
        rw [skim_blank hline hc, hpast]
        rfl
    rw [List.cons_append, hstep, ih, List.append_assoc]
    rfl
  | @comment body cs hb h ih =>
    have hstep : skim false ('/' :: '/' :: (body ++ '\n' :: (cs ++ rest))) (.past before)
        = skim false (cs ++ rest) (.past (before ++ ('/' :: '/' :: body ++ ['\n']))) := by
      rw [skim_slashes, skim_body hb, Position.past_comment hb]
    have hsplit : '/' :: '/' :: body ++ '\n' :: cs ++ rest
        = '/' :: '/' :: (body ++ '\n' :: (cs ++ rest)) := by simp
    rw [hsplit, hstep, ih]
    simp

/-! ## One step -/

theorem Rejected.ne_newline {c : Char} {rest : List Char} (h : Rejected c rest) : c ≠ '\n' := by
  rintro rfl
  exact absurd h.blank (by decide)

/-- A source ends, or goes on with a token or with a character that is refused. -/
theorem exists_cut (cs : List Char) :
    Trailing cs ∨
    (∃ gap k lexeme rest, cs = gap ++ (lexeme ++ rest) ∧ Spacing gap ∧ Munch k lexeme rest) ∨
    ∃ gap c rest, cs = gap ++ c :: rest ∧ Spacing gap ∧ Rejected c rest := by
  let s : Scanner := ⟨cs, .past [], [], .complete⟩
  rcases s.next_cases rfl with ⟨htrailing, -⟩ | ⟨gap, k, lexeme, rest, heq, hgap, hmunch, -⟩ |
    ⟨gap, c, rest, heq, hgap, hc, -⟩
  · exact Or.inl htrailing
  · exact Or.inr (Or.inl ⟨gap, k, lexeme, rest, heq, hgap, hmunch⟩)
  · exact Or.inr (Or.inr ⟨gap, c, rest, heq, hgap, hc⟩)

namespace Scanner

/-- The scanner is to read the characters after those that were read before. -/
structure StandsAt (s : Scanner) (before after : List Char) : Prop where
  rest : s.rest = after
  position : s.position = .past before

variable {s : Scanner} {before gap lexeme rest : List Char} {k : TokenKind} {c : Char}

theorem skim_of_standsAt {after : List Char} (h : s.StandsAt before (gap ++ after))
    (hgap : Spacing gap) :
    skim false s.rest s.position = skim false after (.past (before ++ gap)) := by
  rw [h.rest, h.position, skim_spacing hgap]

theorem next_of_munch (h : s.StandsAt before (gap ++ (lexeme ++ rest))) (hgap : Spacing gap)
    (hmunch : Munch k lexeme rest) :
    s.next = s.token k (.past (before ++ gap)) lexeme rest := by
  unfold next
  rw [skim_of_standsAt h hgap]
  cases hmunch with
  | @name c cs rest hc hcs hr =>
    obtain ⟨htake, hdrop⟩ := takeWhile_of_run hcs hr
    rw [List.cons_append, skim_of_startsToken (startsToken_of_letter hc)]
    simp only [readAt, hc, if_true, htake, hdrop]
  | @number c cs rest hc hcs hr =>
    obtain ⟨htake, hdrop⟩ := takeWhile_of_run hcs hr
    obtain ⟨hletter, hstart⟩ := digit_spec hc
    rw [List.cons_append, skim_of_startsToken hstart]
    simp only [readAt, hletter, hc, if_true, htake, hdrop]
    rfl
  | punctuation hc =>
    obtain ⟨hname, hstart, -⟩ := punctuation_spec hc
    obtain ⟨hletter, hdigit⟩ := not_letter_of_not_nameChar hname
    rw [List.singleton_append, skim_of_startsToken hstart]
    simp only [readAt, hletter, hdigit, hc]
    rfl

theorem next_of_rejected (h : s.StandsAt before (gap ++ c :: rest)) (hgap : Spacing gap)
    (hc : Rejected c rest) :
    s.next = (.error (.unexpected c ((Position.past (before ++ gap)).inFile s.file)),
      { s with rest := if c == '/' then rest.drop 1 else rest,
               position := .past (before ++ gap ++ [c]) }) := by
  have hpast : Position.past (before ++ gap ++ [c]) = (Position.past (before ++ gap)).right 1 :=
    Position.past_append (by simpa using Ne.symm hc.ne_newline) (before ++ gap)
  unfold next
  rw [skim_of_standsAt h hgap, skim_stops hc.blank hc.comment, hpast]
  simp only [readAt, hc.letter, hc.digit, hc.punctuation]
  rfl

/-- Only a slash takes a character along, and only where there is one. -/
theorem next_of_rejected_last (h : s.StandsAt before (gap ++ c :: rest)) (hgap : Spacing gap)
    (hc : Rejected c rest) (hlast : c = '/' → rest = []) :
    s.next = (.error (.unexpected c ((Position.past (before ++ gap)).inFile s.file)),
      { s with rest, position := .past (before ++ gap ++ [c]) }) := by
  have hrest : (if c == '/' then rest.drop 1 else rest) = rest := by
    by_cases hslash : c = '/'
    · rw [hlast hslash, List.drop_nil, ite_self]
    · rw [if_neg (by simpa using hslash)]
  rw [next_of_rejected h hgap hc, hrest]

theorem next_of_skim {p : Position} (h : skim false s.rest s.position = ([], p)) :
    s.next = (s.atEnd p, { s with rest := [], position := p }) := by
  rw [next, h]

/-- The end of a source that breaks off in a comment is not reported where it is: the comment counts
as its first slash, however long it is. -/
theorem next_unfinished {body : List Char} (h : s.StandsAt before (gap ++ '/' :: '/' :: body))
    (hgap : Spacing gap) (hbody : '\n' ∉ body) :
    s.next = (s.atEnd (.past (before ++ gap ++ ['/'])),
      { s with rest := [], position := .past (before ++ gap ++ ['/']) }) := by
  have hpast : Position.past (before ++ gap ++ ['/']) = (Position.past (before ++ gap)).right 1 :=
    Position.past_append (by decide) (before ++ gap)
  have hskim := skim_of_standsAt h hgap
  rw [skim_slashes, skim_unfinished hbody, ← hpast] at hskim
  exact next_of_skim hskim

theorem next_of_trailing (h : s.StandsAt before rest) (htrailing : Trailing rest) :
    Recovers s.file s.ending before rest [s.next.1] ∧ s.next.1.isLast = true ∧
      s.next.2.rest = [] := by
  rcases htrailing with hgap | ⟨gap, body, hgap, hbody, rfl⟩
  · have h' : s.StandsAt before (rest ++ []) := by rwa [List.append_nil]
    rw [next_of_skim (skim_of_standsAt h' hgap)]
    refine ⟨?_, isLast_atEnd _, rfl⟩
    unfold atEnd
    cases he : s.ending with
    | complete => exact .ends hgap rfl
    | failure reason => exact .unreadable (Or.inl hgap) rfl
  · rw [next_unfinished h hgap hbody]
    refine ⟨?_, isLast_atEnd _, rfl⟩
    unfold atEnd
    cases he : s.ending with
    | complete => exact .endsInComment hgap hbody rfl
    | failure reason => exact .unreadable (Or.inr ⟨gap, body, hgap, hbody, rfl⟩) rfl

theorem standsAt_token (hmunch : Munch k lexeme rest) :
    (s.token k (.past before) lexeme rest).2.StandsAt (before ++ lexeme) rest :=
  ⟨rfl, (Position.past_append hmunch.not_mem.1 before).symm⟩

/-- A slash that takes the character behind it along. -/
theorem not_resumes (h : s.StandsAt before (gap ++ '/' :: rest)) (hgap : Spacing gap)
    (hrest : rest ≠ []) (hhead : rest.head? ≠ some '/') : ¬ s.Resumes := by
  intro hresumes
  have hc : Rejected '/' rest := ⟨by decide, by decide, by decide, by decide, fun _ => hhead⟩
  have hnext := next_of_rejected h hgap hc
  obtain ⟨d, rest, rfl⟩ := List.exists_cons_of_ne_nil hrest
  obtain ⟨gap', -, heq⟩ := hresumes '/' _ (by rw [hnext])
  rw [h.rest, hnext] at heq
  -- what is left is one character short, so the slash would have to stand where `d` does
  have hsplit : (gap ++ ['/']) ++ d :: rest = gap' ++ '/' :: rest := by simpa using heq
  have hd := (List.append_inj' hsplit rfl).2
  exact hhead (congrArg some (List.cons.inj hd).1)

/-- One step of a scanner on a source without stray slashes: it is at the end, or it goes on right
after what it read or refused. -/
theorem next_of_not_straySlash {after : List Char} (h : s.StandsAt before after)
    (hstray : ¬ StraySlash after) :
    (Recovers s.file s.ending before after [s.next.1] ∧ s.next.1.isLast = true ∧
        s.next.2.rest = []) ∨
      s.next.1.isLast = false ∧ s.Resumes ∧
        ∃ before' after', s.next.2.StandsAt before' after' ∧ ¬ StraySlash after' ∧
          ∀ rs, Recovers s.file s.ending before' after' rs →
            Recovers s.file s.ending before after (s.next.1 :: rs) := by
  rcases exists_cut after with
    htrailing | ⟨gap, k, lexeme, rest, rfl, hgap, hmunch⟩ | ⟨gap, c, rest, rfl, hgap, hc⟩
  · exact Or.inl (next_of_trailing h htrailing)
  · right
    have hnext := next_of_munch h hgap hmunch
    refine ⟨?_, ?_, before ++ gap ++ lexeme, rest, ?_, fun hr => hstray (.token hgap hmunch hr), ?_⟩
    · rw [hnext]
      exact beq_eq_false_iff_ne.mpr hmunch.ne_ending
    · intro c location herror
      rw [hnext] at herror
      cases herror
    · rw [hnext]
      exact standsAt_token hmunch
    · intro rs hrs
      rw [hnext]
      exact .token hgap hmunch hrs
  · right
    have hlast : c = '/' → rest = [] := by
      rintro rfl
      by_contra hne
      exact hstray (.here hgap hne (hc.comment rfl))
    have hnext := next_of_rejected_last h hgap hc hlast
    refine ⟨by rw [hnext]; rfl, ?_, before ++ gap ++ [c], rest, ?_,
      fun hr => hstray (.refused hgap hc hr), ?_⟩
    · intro d location herror
      rw [hnext] at herror
      cases herror
      refine ⟨gap, hgap, ?_⟩
      rw [hnext, h.rest]
    · rw [hnext]
      exact ⟨rfl, rfl⟩
    · intro rs hrs
      rw [hnext]
      exact .refused hgap hc hrs

/-! ## A whole run -/

theorem resumes_of_rest_nil (h : s.rest = []) (n : Nat) : (s.after n).Resumes := by
  have hnext : ∀ s : Scanner, s.rest = [] → ∃ p, s.next = (s.atEnd p, { s with rest := [] }) := by
    intro s hs
    refine ⟨s.position, ?_⟩
    rw [next, hs]
    rfl
  have hrest : (s.after n).rest = [] := by
    induction n with
    | zero => exact h
    | succ n ih =>
      obtain ⟨p, heq⟩ := hnext _ ih
      rw [after, heq]
  intro c location herror
  obtain ⟨p, heq⟩ := hnext _ hrest
  rw [heq] at herror
  unfold atEnd at herror
  split at herror <;> cases herror

theorem resumes_of_not_straySlash {after : List Char} (h : s.StandsAt before after)
    (hstray : ¬ StraySlash after) (n : Nat) : (s.after n).Resumes := by
  induction n generalizing s before after with
  | zero =>
    rcases next_of_not_straySlash h hstray with ⟨-, hlast, -⟩ | ⟨-, hresumes, -⟩
    · intro c location herror
      have herror' : s.next.1 = .error (.unexpected c location) := herror
      rw [herror'] at hlast
      cases hlast
    · exact hresumes
  | succ n ih =>
    rw [after_succ]
    rcases next_of_not_straySlash h hstray with ⟨-, -, hrest⟩ | ⟨-, -, before', after', h', hstray', -⟩
    · exact resumes_of_rest_nil hrest n
    · exact ih h' hstray'

theorem results_of_not_straySlash {n : Nat} {after : List Char} (h : s.StandsAt before after)
    (hstray : ¬ StraySlash after) (hn : s.rest.length < n) :
    Recovers s.file s.ending before after (s.results n) := by
  induction n generalizing s before after with
  | zero => exact absurd hn (Nat.not_lt_zero _)
  | succ n ih =>
    rw [results_succ]
    rcases next_of_not_straySlash h hstray with
      ⟨hrecovers, hlast, -⟩ | ⟨hlast, -, before', after', h', hstray', hrecovers⟩
    · rw [if_pos hlast]
      exact hrecovers
    · rw [if_neg (by simp [hlast])]
      have hlt := length_next_lt hlast
      obtain ⟨hfile, hending⟩ := s.source_next
      have hrs := ih h' hstray' (by omega)
      rw [hfile, hending] at hrs
      exact hrecovers _ hrs

/-- A scanner that comes to a stray slash does not go on right after it. -/
theorem exists_not_resumes {after : List Char} (hstray : StraySlash after)
    (h : s.StandsAt before after) : ∃ n, ¬ (s.after n).Resumes := by
  induction hstray generalizing s before with
  | here hgap hrest hhead => exact ⟨0, not_resumes h hgap hrest hhead⟩
  | token hgap hmunch hstray ih =>
    have hnext := next_of_munch h hgap hmunch
    obtain ⟨n, hn⟩ := ih (s := s.next.2) (by rw [hnext]; exact standsAt_token hmunch)
    exact ⟨n + 1, by rwa [after_succ]⟩
  | @refused gap rest c hgap hc hstray ih =>
    by_cases hlast : c = '/' → rest = []
    · have hnext := next_of_rejected_last h hgap hc hlast
      obtain ⟨n, hn⟩ := ih (s := s.next.2) (by rw [hnext]; exact ⟨rfl, rfl⟩)
      exact ⟨n + 1, by rwa [after_succ]⟩
    · obtain ⟨rfl, hrest⟩ := Classical.not_imp.mp hlast
      exact ⟨0, not_resumes h hgap hrest (hc.comment rfl)⟩

/-- After a character that starts no token, scanning goes on with the character behind it and finds
every later token where it stands, if and only if the source has no stray slash. -/
theorem recovers_iff (source file : Text) (ending : SourceEnd) :
    ((∀ n, ((ofText source file ending).after n).Resumes) ∧
        Recovers file ending [] source.chars (ofText source file ending).stream) ↔
      ¬ StraySlash source.chars := by
  have hstart : (ofText source file ending).StandsAt [] source.chars := ⟨rfl, rfl⟩
  constructor
  · rintro ⟨hresumes, -⟩ hstray
    obtain ⟨n, hn⟩ := exists_not_resumes hstray hstart
    exact hn (hresumes n)
  · intro hstray
    exact ⟨resumes_of_not_straySlash hstart hstray,
      results_of_not_straySlash hstart hstray (Nat.lt_succ_self _)⟩

/-- The name behind a stray slash is lost, and the end of input is reported in its place. -/
theorem stream_loses_name :
    (ofText "/x" "t" .complete).stream
        = [.error (.unexpected '/' ⟨"t", 1, 1⟩), .ok ⟨.ending, [], ⟨"t", 1, 2⟩⟩] ∧
      ¬ (ofText "/x" "t" .complete).Resumes := by
  have hstart : (ofText "/x" "t" .complete).StandsAt [] ([] ++ '/' :: ['x']) := ⟨rfl, rfl⟩
  exact ⟨by decide, not_resumes hstart .none (by decide) (by decide)⟩

end Scanner

end Denotation
