import Denotation.Proofs.Decimals
import Denotation.Proofs.Lexing

/-!
# Spelling

How texts are spelled from words, numerals, punctuation and blanks, and what tokens they are lexed
to. `Spells safe t P` says that wherever the text `t` stands in a source it is lexed to tokens for
which `P` holds, and lexing goes on right after it. A word or a numeral must not run into the next
one, so unless `safe` the text has to be followed by a character that no name goes on with.

Texts are put together with `Spells.append`, and the properties of their tokens with `Along`.
-/

namespace Denotation

/-! ## Character classes -/

namespace Text.Ranges

variable {r s : Ranges} {p : Nat × Nat} {n : Nat}

theorem exists_mem_of_contains (h : r.contains n = true) : ∃ p ∈ r, p.1 ≤ n ∧ n ≤ p.2 := by
  induction r with
  | nil => cases h
  | cons p r ih =>
    obtain ⟨first, last⟩ := p
    simp only [contains] at h
    split_ifs at h with hfirst hlast
    · exact ⟨(first, last), List.mem_cons_self, Nat.le_of_not_lt hfirst, hlast⟩
    · obtain ⟨q, hq, hn⟩ := ih h
      exact ⟨q, List.mem_cons_of_mem _ hq, hn⟩

/-- Whether a range of code points lies outside the set. -/
def misses : Ranges → Nat × Nat → Bool
  | [], _ => true
  | (first, last) :: rest, p => p.2.blt first || (last.blt p.1 && misses rest p)

/-- Whether all ranges of one set lie outside the other. -/
def apart (r s : Ranges) : Bool := r.all s.misses

theorem not_contains_of_misses (h : r.misses p = true) (hfirst : p.1 ≤ n) (hlast : n ≤ p.2) :
    r.contains n = false := by
  induction r with
  | nil => rfl
  | cons q r ih =>
    obtain ⟨first, last⟩ := q
    simp only [misses, Bool.or_eq_true, Bool.and_eq_true, Nat.blt_eq] at h
    rw [contains]
    rcases h with h | ⟨h, hrest⟩
    · rw [if_pos (by omega)]
    · rw [if_neg (by omega : ¬ n ≤ last), ih hrest, ite_self]

/-- Sets that are apart have no code point in common. -/
theorem not_contains_of_apart (h : r.apart s = true) (hn : r.contains n = true) :
    s.contains n = false := by
  obtain ⟨p, hp, hfirst, hlast⟩ := exists_mem_of_contains hn
  exact not_contains_of_misses (List.all_eq_true.mp h p hp) hfirst hlast

end Text.Ranges

theorem blanks_apart_letters : Text.blankRanges.apart Text.letterRanges = true := by decide +kernel

theorem digits_apart_letters : Text.digitRanges.apart Text.letterRanges = true := by decide +kernel

theorem digits_apart_blanks : Text.digitRanges.apart Text.blankRanges = true := by decide +kernel

/-- No letter is white space. -/
theorem not_blank_of_letter {c : Char} (h : Text.isLetter c = true) : Text.isBlank c = false := by
  by_contra hb
  have hletter := Text.Ranges.not_contains_of_apart blanks_apart_letters
    (Bool.eq_true_of_not_eq_false hb)
  rw [Text.isLetter, hletter] at h
  cases h

/-- A character that starts a token: neither white space nor a slash. -/
def startsToken (c : Char) : Bool := !Text.isBlank c && c != '/'

theorem startsToken_of_letter {c : Char} (h : Text.isLetter c = true) : startsToken c = true := by
  have hslash : c ≠ '/' := by
    rintro rfl
    exact absurd h (by decide)
  simp [startsToken, not_blank_of_letter h, hslash]

/-- No digit is a letter, and a digit starts a token. -/
theorem digit_spec {c : Char} (h : Text.isDigit c = true) :
    Text.isLetter c = false ∧ startsToken c = true := by
  have hletter : Text.isLetter c = false :=
    Text.Ranges.not_contains_of_apart digits_apart_letters h
  have hblank : Text.isBlank c = false :=
    Text.Ranges.not_contains_of_apart digits_apart_blanks h
  have hslash : c ≠ '/' := by
    rintro rfl
    exact absurd h (by decide)
  exact ⟨hletter, by simp [startsToken, hblank, hslash]⟩

theorem skim_of_startsToken {c : Char} (h : startsToken c = true) (cs : List Char) (p : Position) :
    skim false (c :: cs) p = (c :: cs, p) := by
  simp only [startsToken, Bool.and_eq_true, Bool.not_eq_true', bne_iff_ne] at h
  have hline : c ≠ '\n' := by
    rintro rfl
    exact absurd h.1 (by decide)
  simp [skim, hline, h.1, h.2]

/-! ## Lexing from a place on -/

/-- From here on the source is lexed to the end, to tokens of the property. -/
def LexesTo (cs : List Char) (Q : List Token → Prop) : Prop :=
  ∀ p : Position, ∃ ts, (⟨cs, p, [], .complete⟩ : Scanner).Lexes ts ∧ Q ts

/-- The tokens have the first property up to some place and the second from there on. -/
def Along (P Q : List Token → Prop) (ts : List Token) : Prop := ∃ us vs, ts = us ++ vs ∧ P us ∧ Q vs

/-- The tokens are of the given kinds. -/
def Kinds (ks : List TokenKind) (ts : List Token) : Prop := ts.map Token.kind = ks

/-- There is one token, of the property. -/
def One (P : Token → Prop) (ts : List Token) : Prop := ∃ t, ts = [t] ∧ P t

variable {cs rest : List Char} {P P' Q R : List Token → Prop}

theorem lexesTo_nil : LexesTo [] (· = []) :=
  fun p => ⟨[], .ending (t := ⟨.ending, [], ⟨[], p.row, p.col⟩⟩) rfl rfl, rfl⟩

theorem LexesTo.mono (h : LexesTo cs P) (hP : ∀ ts, P ts → P' ts) : LexesTo cs P' := by
  intro p
  obtain ⟨ts, hts, hp⟩ := h p
  exact ⟨ts, hts, hP ts hp⟩

theorem Scanner.Lexes.of_next_eq {s s' : Scanner} {ts : List Token} (h : s'.Lexes ts)
    (hnext : s.next = s'.next) : s.Lexes ts := by
  cases h with
  | ending h hk => exact .ending (hnext ▸ h) hk
  | token h hk hs => exact .token (hnext ▸ h) hk (hnext ▸ hs)

/-- A blank goes with what follows it. -/
theorem LexesTo.blank (h : LexesTo cs Q) : LexesTo (' ' :: cs) Q := by
  intro p
  obtain ⟨ts, hts, hq⟩ := h (p.right 1)
  exact ⟨ts, hts.of_next_eq rfl, hq⟩

/-- A token and what follows it. -/
theorem LexesTo.token {k : TokenKind} {lexeme : List Char} (h : LexesTo rest Q) (hk : k ≠ .ending)
    (hnext : ∀ p, (⟨cs, p, [], .complete⟩ : Scanner).next
      = (⟨cs, p, [], .complete⟩ : Scanner).token k p lexeme rest) :
    LexesTo cs (Along (One fun t => t.kind = k ∧ t.value = Text.ofChars lexeme) Q) := by
  intro p
  obtain ⟨ts, hts, hq⟩ := h (p.right lexeme.length)
  let t : Token := ⟨k, Text.ofChars lexeme, ⟨[], p.row, p.col⟩⟩
  refine ⟨t :: ts, .token (t := t) ?_ hk ?_, [t], ts, rfl, ⟨t, rfl, rfl, rfl⟩, hq⟩
  · rw [hnext]
    rfl
  · rw [hnext]
    exact hts

/-- No name and no numeral goes on into these characters. -/
def Closed (rest : List Char) : Prop := ∀ c ∈ rest.head?, isNameChar c = false

theorem closed_nil : Closed [] := fun _ h => nomatch h

theorem takeWhile_of_closed {f : Char → Bool} (hcs : ∀ c ∈ cs, f c = true) (hr : Closed rest)
    (hf : ∀ c, isNameChar c = false → f c = false) :
    (cs ++ rest).takeWhile f = cs ∧ (cs ++ rest).dropWhile f = rest :=
  takeWhile_of_run hcs fun c hc => hf c (hr c hc)

/-- A name and what follows it. -/
theorem LexesTo.name {c : Char} (h : LexesTo rest Q) (hr : Closed rest)
    (hc : Text.isLetter c = true) (hcs : ∀ d ∈ cs, isNameChar d = true) :
    LexesTo (c :: cs ++ rest)
      (Along (One fun t => t.kind = .name ∧ t.value = Text.ofChars (c :: cs)) Q) := by
  refine h.token (by decide) fun p => ?_
  obtain ⟨htake, hdrop⟩ := takeWhile_of_closed hcs hr fun _ => id
  have hskim := skim_of_startsToken (startsToken_of_letter hc) (cs ++ rest) p
  simp only [Scanner.next, List.cons_append, hskim, Scanner.readAt, hc, if_true, htake, hdrop]

theorem not_letter_of_not_nameChar {c : Char} (h : isNameChar c = false) :
    Text.isLetter c = false ∧ Text.isDigit c = false := by
  simp only [isNameChar, Bool.or_eq_false_iff] at h
  exact h.1.1

theorem Scanner.next_numeral {s : Scanner} {c : Char} (hs : s.rest = c :: cs ++ rest)
    (hr : Closed rest) (hcs : ∀ d ∈ c :: cs, Text.isDigit d = true) :
    s.next = s.token .number s.position (c :: cs) rest := by
  obtain ⟨hc, hcs⟩ := List.forall_mem_cons.mp hcs
  obtain ⟨hletter, hstart⟩ := digit_spec hc
  obtain ⟨htake, hdrop⟩ := takeWhile_of_closed hcs hr fun _ h => (not_letter_of_not_nameChar h).2
  have hskim := skim_of_startsToken hstart (cs ++ rest) s.position
  simp only [Scanner.next, hs, List.cons_append, hskim, Scanner.readAt, hletter, hc, if_true, htake,
    hdrop]
  rfl

/-- A numeral and what follows it. -/
theorem LexesTo.numeral {c : Char} (h : LexesTo rest Q) (hr : Closed rest)
    (hcs : ∀ d ∈ c :: cs, Text.isDigit d = true) :
    LexesTo (c :: cs ++ rest)
      (Along (One fun t => t.kind = .number ∧ t.value = Text.ofChars (c :: cs)) Q) :=
  h.token (by decide) fun _ => Scanner.next_numeral rfl hr hcs

theorem punctuation_spec {c : Char} {k : TokenKind} (h : TokenKind.ofPunctuation? c = some k) :
    isNameChar c = false ∧ startsToken c = true ∧ k ≠ .ending := by
  unfold TokenKind.ofPunctuation? at h
  split at h <;> cases h <;> decide

/-- A character of punctuation and what follows it. -/
theorem LexesTo.punctuation {c : Char} {k : TokenKind} (h : LexesTo rest Q)
    (hc : TokenKind.ofPunctuation? c = some k) :
    LexesTo (c :: rest) (Along (One fun t => t.kind = k ∧ t.value = Text.ofChars [c]) Q) := by
  obtain ⟨hname, hstart, hk⟩ := punctuation_spec hc
  obtain ⟨hletter, hdigit⟩ := not_letter_of_not_nameChar hname
  refine h.token hk fun p => ?_
  have hskim := skim_of_startsToken hstart rest p
  simp only [Scanner.next, hskim, Scanner.readAt, hletter, hdigit, hc]
  rfl

/-! ## Texts -/

/-- Wherever the text stands it is lexed to tokens of the property; unless it is safe, a character
that closes names and numerals has to follow. -/
def Spells (safe : Bool) (t : Text) (P : List Token → Prop) : Prop :=
  ∃ cs, t = Text.ofChars cs ∧ ∀ rest Q, (safe = true ∨ Closed rest) → LexesTo rest Q →
    LexesTo (cs ++ rest) (Along P Q)

/-- The text starts with a character that closes names and numerals. -/
def Closing (t : Text) : Prop := ∃ c cs, t = Text.ofChars (c :: cs) ∧ isNameChar c = false

variable {safe safe' : Bool} {t u : Text}

theorem Spells.mono (h : Spells safe t P) (hP : ∀ ts, P ts → P' ts) : Spells safe t P' := by
  obtain ⟨cs, rfl, h⟩ := h
  refine ⟨cs, rfl, fun rest Q hr hrest => (h rest Q hr hrest).mono ?_⟩
  rintro ts ⟨us, vs, rfl, hus, hvs⟩
  exact ⟨us, vs, rfl, hP us hus, hvs⟩

theorem Spells.of_safe (h : Spells true t P) : Spells safe t P := by
  obtain ⟨cs, rfl, h⟩ := h
  exact ⟨cs, rfl, fun rest Q _ => h rest Q (Or.inl rfl)⟩

theorem closed_of_closing (h : Closing (Text.ofChars cs)) (rest : List Char) :
    Closed (cs ++ rest) := by
  obtain ⟨c, ds, heq, hc⟩ := h
  have hcs : cs = c :: ds := by
    rw [← Text.chars_ofChars cs, heq, Text.chars_ofChars]
  subst hcs
  intro d hd
  obtain rfl : c = d := by simpa using hd
  exact hc

/-- One text after the other. -/
theorem Spells.append (ht : Spells safe t P) (hu : Spells safe' u R)
    (hs : safe = true ∨ Closing u) :
    Spells safe' (t ++ u) (Along P R) := by
  obtain ⟨cs, rfl, ht⟩ := ht
  obtain ⟨ds, rfl, hu⟩ := hu
  refine ⟨cs ++ ds, (Text.ofChars_append cs ds).symm, fun rest Q hr hrest => ?_⟩
  rw [List.append_assoc]
  have hclosed : safe = true ∨ Closed (ds ++ rest) := hs.imp_right fun h => closed_of_closing h rest
  refine (ht (ds ++ rest) (Along R Q) hclosed (hu rest Q hr hrest)).mono ?_
  rintro ts ⟨us, ws, rfl, hus, vs, ws, rfl, hvs, hws⟩
  exact ⟨us ++ vs, ws, by simp, ⟨us, vs, rfl, hus, hvs⟩, hws⟩

/-- A whole source is lexed to tokens of the property. -/
theorem Spells.lexes (h : Spells safe t P) :
    ∃ ts, (Scanner.ofText t [] .complete).Lexes ts ∧ P ts := by
  obtain ⟨cs, rfl, h⟩ := h
  obtain ⟨ts, hts, us, vs, rfl, hus, rfl⟩ := h [] _ (Or.inr closed_nil) lexesTo_nil Position.start
  rw [Scanner.ofText, Text.chars_ofChars]
  rw [List.append_nil] at hts
  exact ⟨us ++ [], hts, by rwa [List.append_nil]⟩

/-- A blank or a character of punctuation. -/
def isMark (c : Char) : Bool := c == ' ' || (TokenKind.ofPunctuation? c).isSome

theorem isMark_iff {c : Char} :
    isMark c = true ↔ c = ' ' ∨ ∃ k, TokenKind.ofPunctuation? c = some k := by
  rw [isMark, Bool.or_eq_true, beq_iff_eq, Option.isSome_iff_exists]

/-- A text of punctuation and blanks is lexed to its punctuation. -/
theorem spells_marks (cs : List Char) (h : cs.all isMark = true) :
    Spells true (Text.ofChars cs) (Kinds (cs.filterMap TokenKind.ofPunctuation?)) := by
  refine ⟨cs, rfl, fun rest Q _ hrest => ?_⟩
  induction cs with
  | nil => exact hrest.mono fun ts hts => ⟨[], ts, rfl, rfl, hts⟩
  | cons c cs ih =>
    rw [List.all_cons, Bool.and_eq_true] at h
    rcases isMark_iff.mp h.1 with rfl | ⟨k, hk⟩
    · exact (ih h.2).blank
    · refine ((ih h.2).punctuation hk).mono ?_
      rintro ts ⟨_, _, rfl, ⟨t, rfl, ht, -⟩, us, vs, rfl, hus, hvs⟩
      refine ⟨t :: us, vs, rfl, ?_, hvs⟩
      rw [Kinds, List.filterMap_cons_some hk, List.map_cons, ht, hus]

theorem not_nameChar_of_mark {c : Char} (h : isMark c = true) : isNameChar c = false := by
  rcases isMark_iff.mp h with rfl | ⟨k, hk⟩
  · decide
  · exact (punctuation_spec hk).1

/-- Punctuation and blanks after a text. -/
theorem Spells.marked (ht : Spells safe t P) (cs : List Char) (hne : cs ≠ [])
    (h : cs.all isMark = true) :
    Spells true (t ++ Text.ofChars cs)
      (Along P (Kinds (cs.filterMap TokenKind.ofPunctuation?))) := by
  refine ht.append (spells_marks cs h) (Or.inr ?_)
  obtain ⟨c, ds, rfl⟩ := List.exists_cons_of_ne_nil hne
  exact ⟨c, ds, rfl, not_nameChar_of_mark (List.all_eq_true.mp h c List.mem_cons_self)⟩

theorem kinds_nil {ts : List Token} : Kinds [] ts ↔ ts = [] := List.map_eq_nil_iff

theorem kinds_cons {k : TokenKind} {ks : List TokenKind} {ts : List Token} :
    Kinds (k :: ks) ts ↔ ∃ t us, ts = t :: us ∧ t.kind = k ∧ Kinds ks us := by
  rw [Kinds, List.map_eq_cons_iff]
  rfl

theorem kinds_singleton {k : TokenKind} {ts : List Token} :
    Kinds [k] ts ↔ ∃ t, ts = [t] ∧ t.kind = k := by
  simp [kinds_cons, kinds_nil]

/-- The text is spelled like a name: a letter, then letters, digits, hyphens and underscores. -/
def IsName (t : Text) : Prop :=
  ∃ c cs, t = Text.ofChars (c :: cs) ∧ Text.isLetter c = true ∧ ∀ d ∈ cs, isNameChar d = true

theorem spells_name (h : IsName t) :
    Spells false t (One fun u => u.kind = .name ∧ u.value = t) := by
  obtain ⟨c, cs, rfl, hc, hcs⟩ := h
  exact ⟨c :: cs, rfl, fun rest Q hr hrest => hrest.name (hr.resolve_left (by decide)) hc hcs⟩

/-- The text is spelled like a number: digits, of any script. -/
def IsNumeral (t : Text) : Prop :=
  ∃ c cs, t = Text.ofChars (c :: cs) ∧ ∀ d ∈ c :: cs, Text.isDigit d = true

theorem spells_numeral (h : IsNumeral t) :
    Spells false t (One fun u => u.kind = .number ∧ u.value = t) := by
  obtain ⟨c, cs, rfl, hcs⟩ := h
  exact ⟨c :: cs, rfl, fun rest Q hr hrest => hrest.numeral (hr.resolve_left (by decide)) hcs⟩

theorem isDigit_of_ascii : ∀ n, 0x30 ≤ n → n < 0x3A → Text.isDigit (Char.ofNat n) = true := by
  decide

/-- A text of ASCII digits is a numeral. -/
theorem spells_digits (hne : t ≠ []) (h : ∀ b ∈ t, 0x30 ≤ b.toNat ∧ b.toNat ≤ 0x39) :
    Spells false t (One fun u => u.kind = .number ∧ u.value = t) := by
  have hchars : ∀ c ∈ Text.asciiChars t, Text.isDigit c = true := by
    intro c hc
    obtain ⟨b, hb, rfl⟩ := List.mem_map.mp hc
    exact isDigit_of_ascii b.toNat (h b hb).1 (Nat.lt_succ_of_le (h b hb).2)
  have heq : t = Text.ofChars (Text.asciiChars t) :=
    (Text.ofChars_asciiChars fun b hb => Nat.lt_of_le_of_lt (h b hb).2 (by decide)).symm
  have hne' : Text.asciiChars t ≠ [] := by simpa [Text.asciiChars] using hne
  obtain ⟨c, cs, hcs⟩ := List.exists_cons_of_ne_nil hne'
  rw [hcs] at hchars heq
  exact spells_numeral ⟨c, cs, heq, hchars⟩

end Denotation
