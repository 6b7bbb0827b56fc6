import Denotation.Proofs.Characters
import Denotation.Proofs.Lexing

/-!
# How a source is cut into tokens

A source is spacing, a token, spacing, a token and so on, up to its end or to the first character
that starts no token. `Segments` says this of the characters of a source and their bytes: where a
token stands follows from the characters in front of it, its value is the bytes that stand there,
and a name or a number takes in all it can.

The scanner does not look back. It counts rows and columns as it goes, and inside a comment its
column is wrong. The count is right again after the line break that ends the comment, so it is right
wherever a token starts; only where a comment ends the source no line break mends it.
-/

namespace Denotation

open Text (Piece)

/-! ## Places -/

namespace Position

/-- The place right after characters that start a source. -/
def past (cs : List Char) : Position :=
  ⟨1 + cs.count '\n', 1 + (cs.reverse.takeWhile (· != '\n')).length⟩

theorem past_newline (cs : List Char) : past (cs ++ ['\n']) = (past cs).newline := by
  simp [past, newline]
  omega

theorem past_append {ds : List Char} (h : '\n' ∉ ds) (cs : List Char) :
    past (cs ++ ds) = (past cs).right ds.length := by
  have hcount : ds.count '\n' = 0 := List.count_eq_zero.mpr h
  have hplain : ∀ c ∈ ds.reverse, (c != '\n') = true := by
    intro c hc
    have hne : c ≠ '\n' := fun hc' => h (hc' ▸ List.mem_reverse.mp hc)
    exact bne_iff_ne.mpr hne
  simp only [past, right, List.count_append, hcount, List.reverse_append,
    List.takeWhile_append_of_pos hplain, List.length_append, List.length_reverse, mk.injEq]
  omega

/-- A comment with its line break leads to the start of the next row, wherever in its row the
comment was thought to go on. -/
theorem past_comment {body : List Char} (h : '\n' ∉ body) (cs : List Char) :
    past (cs ++ ('/' :: '/' :: body ++ ['\n'])) = ((past cs).right 1).newline := by
  have hplain : '\n' ∉ '/' :: '/' :: body := by simp [h]
  rw [← List.append_assoc, past_newline, past_append hplain]
  rfl

end Position

/-! ## Spacing and lexemes -/

/-- White space and comments, each comment with the line break that ends it. -/
inductive Spacing : List Char → Prop where
  | none : Spacing []
  | blank {c : Char} {cs : List Char} (hc : Text.isBlank c = true) (h : Spacing cs) :
      Spacing (c :: cs)
  | comment {body cs : List Char} (hb : '\n' ∉ body) (h : Spacing cs) :
      Spacing ('/' :: '/' :: body ++ '\n' :: cs)

/-- Spacing up to the end of a source, where the last comment needs no line break. -/
def Trailing (cs : List Char) : Prop :=
  Spacing cs ∨ ∃ gap body, Spacing gap ∧ '\n' ∉ body ∧ cs = gap ++ '/' :: '/' :: body

/-- The characters are a token of the kind in front of the rest. A name and a number go on for as
long as they can. -/
inductive Munch : TokenKind → List Char → List Char → Prop where
  | name {c : Char} {cs rest : List Char} (hc : Text.isLetter c = true)
      (hcs : ∀ d ∈ cs, isNameChar d = true) (hr : ∀ d ∈ rest.head?, isNameChar d = false) :
      Munch .name (c :: cs) rest
  | number {c : Char} {cs rest : List Char} (hc : Text.isDigit c = true)
      (hcs : ∀ d ∈ cs, Text.isDigit d = true) (hr : ∀ d ∈ rest.head?, Text.isDigit d = false) :
      Munch .number (c :: cs) rest
  | punctuation {k : TokenKind} {c : Char} {rest : List Char}
      (hc : TokenKind.ofPunctuation? c = some k) : Munch k [c] rest

/-- Neither spacing nor a token starts with the character, which the rest follows. -/
structure Rejected (c : Char) (rest : List Char) : Prop where
  blank : Text.isBlank c = false
  letter : Text.isLetter c = false
  digit : Text.isDigit c = false
  punctuation : TokenKind.ofPunctuation? c = none
  comment : c = '/' → rest.head? ≠ some '/'

section
variable {k : TokenKind} {cs rest : List Char}

/-- Characters that no token holds: a line break, and what stands for a byte that is no character. -/
theorem Munch.not_mem (h : Munch k cs rest) : '\n' ∉ cs ∧ Text.replacement ∉ cs := by
  have hletter : Text.isLetter '\n' = false ∧ Text.isLetter Text.replacement = false := by
    decide +kernel
  have hdigit : Text.isDigit '\n' = false ∧ Text.isDigit Text.replacement = false := by
    decide +kernel
  have hname : isNameChar '\n' = false ∧ isNameChar Text.replacement = false := by decide +kernel
  cases h with
  | name hc hcs hr =>
    constructor <;> intro hmem <;> rcases List.mem_cons.mp hmem with rfl | hmem
    · simp [hletter.1] at hc
    · simpa [hname.1] using hcs _ hmem
    · simp [hletter.2] at hc
    · simpa [hname.2] using hcs _ hmem
  | number hc hcs hr =>
    constructor <;> intro hmem <;> rcases List.mem_cons.mp hmem with rfl | hmem
    · simp [hdigit.1] at hc
    · simpa [hdigit.1] using hcs _ hmem
    · simp [hdigit.2] at hc
    · simpa [hdigit.2] using hcs _ hmem
  | punctuation hc =>
    constructor <;> intro hmem <;> obtain rfl := List.mem_singleton.mp hmem <;> cases hc

theorem Munch.ne_ending (h : Munch k cs rest) : k ≠ .ending := by
  cases h with
  | name => decide
  | number => decide
  | punctuation hc =>
    unfold TokenKind.ofPunctuation? at hc
    split at hc <;> cases hc <;> decide

end

/-! ## One step of the scanner -/

theorem skim_newline (inComment : Bool) (cs : List Char) (p : Position) :
    skim inComment ('\n' :: cs) p = skim false cs p.newline := by
  simp [skim]

theorem skim_blank {c : Char} (hline : c ≠ '\n') (hc : Text.isBlank c = true) (cs : List Char)
    (p : Position) : skim false (c :: cs) p = skim false cs (p.right 1) := by
  simp [skim, hline, hc]

theorem skim_slashes (cs : List Char) (p : Position) :
    skim false ('/' :: '/' :: cs) p = skim true cs (p.right 1) := by
  have hblank : Text.isBlank '/' = false := by decide
  simp [skim, hblank]

theorem skim_stops {c : Char} {cs : List Char} (hc : Text.isBlank c = false)
    (hslash : c = '/' → cs.head? ≠ some '/') (p : Position) :
    skim false (c :: cs) p = (c :: cs, p) := by
  have hline : c ≠ '\n' := by
    rintro rfl
    exact absurd hc (by decide)
  have hcomment : (c == '/' && cs.head? == some '/') = false := by simpa using hslash
  rw [skim, if_neg (by simpa using hline), if_neg (by simp), if_neg (by simp [hc]), hcomment]
  rfl

/-- A comment goes on to the next line break, or to the end if there is none. -/
theorem skim_comment (cs : List Char) (p : Position) :
    '\n' ∉ cs ∧ skim true cs p = ([], p) ∨
      ∃ body rest, cs = body ++ '\n' :: rest ∧ '\n' ∉ body ∧
        skim true cs p = skim false rest p.newline := by
  induction cs with
  | nil => exact Or.inl ⟨by simp, rfl⟩
  | cons c cs ih =>
    by_cases hc : c = '\n'
    · subst hc
      exact Or.inr ⟨[], cs, rfl, by simp, rfl⟩
    · have hstep : skim true (c :: cs) p = skim true cs p := by simp [skim, hc]
      rw [hstep]
      rcases ih with ⟨hcs, heq⟩ | ⟨body, rest, rfl, hbody, heq⟩
      · exact Or.inl ⟨by simp [hcs, Ne.symm hc], heq⟩
      · exact Or.inr ⟨c :: body, rest, rfl, by simp [hbody, Ne.symm hc], heq⟩

/-- What dropping spacing in front of a token leaves, after characters that were read before. -/
inductive Skimmed (before : List Char) : List Char → List Char × Position → Prop where
  | stops {gap rest : List Char} {c : Char} (hgap : Spacing gap) (hc : Text.isBlank c = false)
      (hslash : c = '/' → rest.head? ≠ some '/') :
      Skimmed before (gap ++ c :: rest) (c :: rest, Position.past (before ++ gap))
  | ends {cs : List Char} {p : Position} (h : Trailing cs) : Skimmed before cs ([], p)

section
variable {before cs gap : List Char} {r : List Char × Position}

theorem Skimmed.blank {c : Char} (hc : Text.isBlank c = true)
    (h : Skimmed (before ++ [c]) cs r) : Skimmed before (c :: cs) r := by
  cases h with
  | @stops gap rest d hgap hd hslash =>
    have hstops : Skimmed before (c :: gap ++ d :: rest) (d :: rest, .past (before ++ c :: gap)) :=
      .stops (hgap.blank hc) hd hslash
    simpa using hstops
  | ends h =>
    refine .ends ?_
    rcases h with h | ⟨gap, body, hgap, hbody, rfl⟩
    · exact Or.inl (h.blank hc)
    · exact Or.inr ⟨c :: gap, body, hgap.blank hc, hbody, rfl⟩

theorem Skimmed.comment {body : List Char} (hb : '\n' ∉ body)
    (h : Skimmed (before ++ ('/' :: '/' :: body ++ ['\n'])) cs r) :
    Skimmed before ('/' :: '/' :: body ++ '\n' :: cs) r := by
  cases h with
  | @stops gap rest d hgap hd hslash =>
    have hstops : Skimmed before ('/' :: '/' :: body ++ '\n' :: gap ++ d :: rest)
        (d :: rest, .past (before ++ ('/' :: '/' :: body ++ '\n' :: gap))) :=
      .stops (hgap.comment hb) hd hslash
    simpa using hstops
  | ends h =>
    refine .ends ?_
    rcases h with h | ⟨gap, body', hgap, hbody, rfl⟩
    · exact Or.inl (h.comment hb)
    · exact Or.inr ⟨_, body', hgap.comment hb, hbody, by simp⟩

end

/-- Dropping spacing leaves the right place wherever a character is left. -/
theorem skim_skimmed (before cs : List Char) :
    Skimmed before cs (skim false cs (Position.past before)) := by
  induction hn : cs.length using Nat.strong_induction_on generalizing before cs with
  | _ n ih =>
    cases cs with
    | nil => exact .ends (Or.inl .none)
    | cons c cs =>
      subst hn
      by_cases hline : c = '\n'
      · subst hline
        rw [skim_newline, ← Position.past_newline]
        exact (ih _ (Nat.lt_succ_self _) _ cs rfl).blank (by decide)
      by_cases hblank : Text.isBlank c = true
      · have hpast : Position.past (before ++ [c]) = (Position.past before).right 1 :=
          Position.past_append (by simpa using Ne.symm hline) before
        rw [skim_blank hline hblank, ← hpast]
        exact (ih _ (Nat.lt_succ_self _) _ cs rfl).blank hblank
      by_cases hslash : c = '/' ∧ cs.head? = some '/'
      · obtain ⟨rfl, hhead⟩ := hslash
        obtain ⟨cs, rfl⟩ := List.head?_eq_some_iff.mp hhead
        rw [skim_slashes]
        rcases skim_comment cs ((Position.past before).right 1) with
          ⟨hcs, heq⟩ | ⟨body, rest, rfl, hbody, heq⟩
        · rw [heq]
          exact .ends (Or.inr ⟨[], cs, .none, hcs, rfl⟩)
        · rw [heq, ← Position.past_comment hbody]
          have hlt : rest.length < ('/' :: '/' :: (body ++ '\n' :: rest)).length := by
            simp
            omega
          exact (ih _ hlt _ rest rfl).comment hbody
      · have hblank' : Text.isBlank c = false := by simpa using hblank
        have hslash' : c = '/' → cs.head? ≠ some '/' := fun hc hhead => hslash ⟨hc, hhead⟩
        have hstops : Skimmed before ([] ++ c :: cs) (c :: cs, .past (before ++ [])) :=
          .stops .none hblank' hslash'
        rw [skim_stops hblank' hslash']
        simpa using hstops

namespace Scanner

variable {s : Scanner} {t : Token}

/-- What starts with a character that is no spacing is a token or refused. -/
theorem readAt_cases (s : Scanner) (c : Char) (cs : List Char) (p : Position) :
    (∃ k lexeme rest, c :: cs = lexeme ++ rest ∧ Munch k lexeme rest ∧
      s.readAt c cs p = s.token k p lexeme rest) ∨
    Text.isLetter c = false ∧ Text.isDigit c = false ∧ TokenKind.ofPunctuation? c = none ∧
      (s.readAt c cs p).1 = .error (.unexpected c (s.locate p)) := by
  unfold readAt
  by_cases hletter : Text.isLetter c = true
  · obtain ⟨run, rest, hcs, htake, hdrop, hrun, hrest⟩ := exists_run isNameChar cs
    refine Or.inl ⟨.name, c :: run, rest, by rw [hcs]; rfl, .name hletter hrun hrest, ?_⟩
    rw [if_pos hletter, htake, hdrop]
  by_cases hdigit : Text.isDigit c = true
  · obtain ⟨run, rest, hcs, htake, hdrop, hrun, hrest⟩ := exists_run Text.isDigit cs
    refine Or.inl ⟨.number, c :: run, rest, by rw [hcs]; rfl, .number hdigit hrun hrest, ?_⟩
    rw [if_neg hletter, if_pos hdigit, htake, hdrop]
  rw [if_neg hletter, if_neg hdigit]
  cases hk : TokenKind.ofPunctuation? c with
  | some k => exact Or.inl ⟨k, [c], cs, rfl, .punctuation hk, rfl⟩
  | none => exact Or.inr ⟨by simpa using hletter, by simpa using hdigit, rfl, rfl⟩

/-- A step of the scanner, from the place right after the characters that were read before: it comes
to the end of the source, or reads a token, or refuses a character. -/
theorem next_cases (s : Scanner) {before : List Char} (hp : s.position = .past before) :
    (Trailing s.rest ∧ ∃ p, s.next.1 = s.atEnd p) ∨
    (∃ gap k lexeme rest, s.rest = gap ++ (lexeme ++ rest) ∧ Spacing gap ∧ Munch k lexeme rest ∧
      s.next = s.token k (.past (before ++ gap)) lexeme rest) ∨
    ∃ gap c rest, s.rest = gap ++ c :: rest ∧ Spacing gap ∧ Rejected c rest ∧
      s.next.1 = .error (.unexpected c (s.locate (.past (before ++ gap)))) := by
  have hskim := skim_skimmed before s.rest
  unfold next
  rw [hp]
  generalize s.rest = cs at hskim
  generalize skim false cs (.past before) = r at hskim
  cases hskim with
  | ends h => exact Or.inl ⟨h, _, rfl⟩
  | @stops gap rest c hgap hc hslash =>
    right
    rcases s.readAt_cases c rest (.past (before ++ gap)) with
      ⟨k, lexeme, rest', heq, hmunch, hread⟩ | ⟨hletter, hdigit, hpunctuation, hread⟩
    · exact Or.inl ⟨gap, k, lexeme, rest', by rw [heq], hgap, hmunch, hread⟩
    · have hrejected : Rejected c rest := ⟨hc, hletter, hdigit, hpunctuation, hslash⟩
      exact Or.inr ⟨gap, c, rest, rfl, hgap, hrejected, hread⟩

/-- A token that a step reads is spelled by a lexeme, wherever the scanner stands. -/
theorem munch_of_next (h : s.next.1 = .ok t) (hk : t.kind ≠ .ending) :
    ∃ cs rest, Munch t.kind cs rest ∧ t.value = Text.ofChars cs := by
  unfold next at h
  split at h
  · rename_i p _
    unfold atEnd at h
    split at h
    · cases h
      exact absurd rfl hk
    · cases h
  · rename_i c cs p _
    rcases s.readAt_cases c cs p with ⟨k, lexeme, rest, -, hmunch, hread⟩ | ⟨-, -, -, hread⟩
    · rw [hread] at h
      cases h
      exact ⟨lexeme, rest, hmunch, rfl⟩
    · rw [hread] at h
      cases h

end Scanner

/-- The value of the token is spelled as its kind wants it. -/
def Token.Spelled (t : Token) : Prop :=
  ∃ cs rest, Munch t.kind cs rest ∧ t.value = Text.ofChars cs

theorem Scanner.Lexes.spelled {s : Scanner} {ts : List Token} (h : s.Lexes ts) :
    ∀ t ∈ ts, t.Spelled := by
  induction h with
  | ending h hk => exact fun t ht => absurd ht List.not_mem_nil
  | token h hk hs ih => exact List.forall_mem_cons.mpr ⟨Scanner.munch_of_next h hk, ih⟩

/-! ## A run of the scanner -/

/-- The location right after pieces that start a source. -/
def Location.past (file : Text) (ps : List Piece) : Location :=
  ⟨file, (Position.past (ps.map Piece.char)).row, (Position.past (ps.map Piece.char)).col⟩

/-- Tokens stand one after the other in a source: from the first place, between `before` and
`after`, they lead to the second one, with nothing but spacing in front of each. A token has the
place where it stands as its location and the bytes that stand there as its value. -/
inductive Segments (file : Text) :
    List Piece → List Piece → List Token → List Piece → List Piece → Prop where
  | none {before after : List Piece} : Segments file before after [] before after
  | token {before gap lexeme rest before' after' : List Piece} {t : Token} {ts : List Token}
      (hgap : Spacing (gap.map Piece.char))
      (hmunch : Munch t.kind (lexeme.map Piece.char) (rest.map Piece.char))
      (hvalue : t.value = Text.ofPieces lexeme)
      (hlocation : t.location = .past file (before ++ gap))
      (h : Segments file (before ++ gap ++ lexeme) rest ts before' after') :
      Segments file before (gap ++ (lexeme ++ rest)) (t :: ts) before' after'

/-- The result that ends a run of tokens which leads to the place between `before` and `after`, and
the results that are to come: the end of the source, or a character that is refused at its place. -/
inductive Closes (file : Text) (ending : SourceEnd) (before after : List Piece) :
    ScanResult → List ScanResult → Prop where
  | ends {location : Location} (h : Trailing (after.map Piece.char)) (he : ending = .complete) :
      Closes file ending before after (.ok ⟨.ending, [], location⟩) []
  | unreadable {reason : Text} (h : Trailing (after.map Piece.char))
      (he : ending = .failure reason) :
      Closes file ending before after (.error (.unreadable reason)) []
  | refuses {gap rest : List Piece} {p : Piece} {later : List ScanResult}
      (hafter : after = gap ++ p :: rest) (hgap : Spacing (gap.map Piece.char))
      (hp : Rejected p.char (rest.map Piece.char)) :
      Closes file ending before after (.error (.unexpected p.char (.past file (before ++ gap)))) later

theorem Segments.append_eq {file : Text} {before after before' after' : List Piece}
    {ts : List Token} (h : Segments file before after ts before' after') :
    before' ++ after' = before ++ after := by
  induction h with
  | none => rfl
  | token hgap hmunch hvalue hlocation h ih => simpa using ih

/-- Pieces of a source that spell a token hold the bytes of their characters. -/
theorem ofPieces_of_munch {k : TokenKind} {ps : List Piece} {rest : List Char}
    (h : Munch k (ps.map Piece.char) rest) (hps : ∀ p ∈ ps, p.WellFormed) :
    Text.ofPieces ps = Text.ofChars (ps.map Piece.char) := by
  have hbytes : ∀ p ∈ ps, p.bytes = Text.ofChar p.char := by
    intro p hp
    rcases hps p hp with hb | ⟨b, rfl⟩
    · exact hb
    · exact absurd (List.mem_map_of_mem hp) h.not_mem.2
  rw [Text.ofPieces, Text.ofChars, List.flatMap_map]
  exact List.flatMap_congr hbytes

namespace Scanner

/-- Scanning from a place where the count of rows and columns is right. -/
theorem results_segments {n : Nat} (s : Scanner) (before after : List Piece)
    (hrest : s.rest = after.map Piece.char)
    (hposition : s.position = .past (before.map Piece.char))
    (hafter : ∀ p ∈ after, p.WellFormed) (hn : s.rest.length < n) :
    ∃ ts r later before' after', s.results n = ts.map .ok ++ r :: later ∧
      Segments s.file before after ts before' after' ∧
      Closes s.file s.ending before' after' r later := by
  induction n generalizing s before after with
  | zero => exact absurd hn (Nat.not_lt_zero _)
  | succ n ih =>
    rw [results_succ]
    rcases s.next_cases hposition with
      ⟨htrailing, p, hnext⟩ | ⟨gap, k, lexeme, rest, heq, hgap, hmunch, hnext⟩ |
      ⟨gap, c, rest, heq, hgap, hrejected, hnext⟩
    · -- the end of the source
      rw [if_pos (by rw [hnext, isLast_atEnd]), hnext]
      rw [hrest] at htrailing
      refine ⟨[], _, [], before, after, rfl, .none, ?_⟩
      unfold atEnd
      cases he : s.ending with
      | complete => exact .ends htrailing rfl
      | failure reason => exact .unreadable htrailing rfl
    · -- a token, and the run that goes on after it
      rw [hrest] at heq
      obtain ⟨gap, _, rfl, rfl, htail⟩ := List.map_eq_append_iff.mp heq
      obtain ⟨lexeme, rest, rfl, rfl, rfl⟩ := List.map_eq_append_iff.mp htail
      have hlast : s.next.1.isLast = false := by
        rw [hnext]
        exact beq_eq_false_iff_ne.mpr hmunch.ne_ending
      have hlength : (s.token k (.past (before.map Piece.char ++ gap.map Piece.char))
          (lexeme.map Piece.char) (rest.map Piece.char)).2.rest.length < n := by
        have := length_next_lt hlast
        rw [hnext] at this
        omega
      have hpast : Position.right (.past (before.map Piece.char ++ gap.map Piece.char))
          (lexeme.map Piece.char).length
            = .past ((before ++ gap ++ lexeme).map Piece.char) := by
        rw [← Position.past_append hmunch.not_mem.1]
        simp
      have hvalue := ofPieces_of_munch hmunch fun p hp => hafter p (by simp [hp])
      obtain ⟨ts, r, later, before', after', hresults, hsegments, hcloses⟩ :=
        ih (s.token k _ (lexeme.map Piece.char) (rest.map Piece.char)).2 (before ++ gap ++ lexeme)
          rest rfl hpast (fun p hp => hafter p (by simp [hp])) hlength
      rw [hlast, hnext, hresults]
      refine ⟨_ :: ts, r, later, before', after', rfl, ?_, hcloses⟩
      refine .token hgap hmunch hvalue.symm ?_ hsegments
      simp [locate, Location.past]
    · -- a character that is refused
      rw [hrest] at heq
      obtain ⟨gap, _, rfl, rfl, htail⟩ := List.map_eq_append_iff.mp heq
      obtain ⟨p, rest, rfl, rfl, rfl⟩ := List.map_eq_cons_iff.mp htail
      have hlast : s.next.1.isLast = false := by rw [hnext]; rfl
      rw [hlast, hnext]
      refine ⟨[], _, s.next.2.results n, before, _, rfl, .none, ?_⟩
      have hcloses : Closes s.file s.ending before (gap ++ p :: rest)
          (.error (.unexpected p.char (.past s.file (before ++ gap)))) (s.next.2.results n) :=
        .refuses rfl hgap hrejected
      simpa [locate, Location.past] using hcloses

/-- Every source is cut into tokens with nothing but spacing between them, up to its end or to the
first character that starts no token. Each token has as its location the number of line breaks in
front of it and of the characters since the last of them, and as its value the bytes at that place;
names and numbers are as long as can be. The character that starts no token is reported at its
place. -/
theorem stream_segments (source file : Text) (ending : SourceEnd) :
    ∃ ts r later before after,
      (ofText source file ending).stream = ts.map .ok ++ r :: later ∧
      before ++ after = source.pieces ∧ Text.ofPieces source.pieces = source ∧
      Segments file [] source.pieces ts before after ∧
      Closes file ending before after r later := by
  obtain ⟨ts, r, later, before, after, hstream, hsegments, hcloses⟩ :=
    (ofText source file ending).results_segments [] source.pieces rfl rfl
      (fun p hp => Text.wellFormed_of_mem_pieces hp) (Nat.lt_succ_self _)
  have hsource : before ++ after = source.pieces := hsegments.append_eq
  exact ⟨ts, r, later, before, after, hstream, hsource, Text.ofPieces_pieces source, hsegments,
    hcloses⟩

end Scanner

end Denotation
