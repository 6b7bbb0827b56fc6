import Denotation.Proofs.Numerals
import Denotation.Proofs.Parsing
import Denotation.Proofs.Segmentation
import Denotation.Proofs.Spelling

/-!
# Numbers in the digits of any script

The scanner takes the digits of every script for digits, and a run of them for one number. The
parser reads the value of ASCII digits only. A run is thus read as its decimal value just if it is
written in ASCII digits and fits into 64 bits; every other run is called out of range, also where
its value is small.
-/

namespace Denotation

namespace Text

/-- How far a code point stands behind the start of its range. -/
def Ranges.offset : Ranges → Nat → Nat
  | [], _ => 0
  | (first, last) :: rest, n => if n ≤ last then n - first else Ranges.offset rest n

/-- The value of a digit. The digits of a script stand in a row from zero to nine, and a range of
digits is made of such rows. -/
def digitValue (c : Char) : Nat := digitRanges.offset c.toNat % 10

example : digitRanges.all (fun range => (range.2 + 1 - range.1) % 10 == 0) = true := by decide

/-- The decimal value of a run of digits. -/
def runValue (run : List Char) : Nat := decimalValue (run.map digitValue)

/-- The run is written in ASCII. -/
def IsAscii (run : List Char) : Prop := ∀ c ∈ run, c.toNat < 0x80

variable {c : Char} {run : List Char}

theorem digit_of_ascii (hc : isDigit c = true) (hascii : c.toNat < 0x80) :
    0x30 ≤ c.toNat ∧ c.toNat ≤ 0x39 := by
  obtain ⟨range, hmem, hfirst, hlast⟩ := Ranges.exists_mem_of_contains hc
  have hranges : digitRanges.all (fun p => p == (0x30, 0x39) || 0x80 ≤ p.1) = true := by decide
  have hrange := List.all_eq_true.mp hranges range hmem
  simp only [Bool.or_eq_true, beq_iff_eq, decide_eq_true_eq] at hrange
  rcases hrange with rfl | hle
  · exact ⟨hfirst, hlast⟩
  · omega

theorem digitValue_of_ascii (hc : isDigit c = true) (hascii : c.toNat < 0x80) :
    digitValue c = c.toNat - 0x30 := by
  obtain ⟨hfirst, hlast⟩ := digit_of_ascii hc hascii
  have hoffset : digitRanges.offset c.toNat = c.toNat - 0x30 := by
    rw [digitRanges, Ranges.offset, if_pos hlast]
  rw [digitValue, hoffset]
  omega

theorem digitValue_lt (c : Char) : digitValue c < 10 := Nat.mod_lt _ (by decide)

/-- A run of ASCII digits is its value in decimal. -/
theorem isDecimal_of_ascii (hne : run ≠ []) (hrun : ∀ c ∈ run, isDigit c = true)
    (hascii : IsAscii run) : IsDecimal (ofChars run) (runValue run) := by
  have hbytes : ∀ c ∈ run, ofChar c = [UInt8.ofNat (0x30 + digitValue c)] := by
    intro c hc
    obtain ⟨hfirst, hlast⟩ := digit_of_ascii (hrun c hc) (hascii c hc)
    have hvalue : 0x30 + digitValue c = c.toNat := by
      rw [digitValue_of_ascii (hrun c hc) (hascii c hc)]
      omega
    rw [hvalue, ofChar]
    exact if_pos (hascii c hc)
  refine ⟨run.map digitValue, by simpa using hne, ?_, ?_, rfl⟩
  · intro d hd
    obtain ⟨c, -, rfl⟩ := List.mem_map.mp hd
    exact digitValue_lt c
  · rw [digitBytes, List.map_map, ofChars, List.flatMap_congr hbytes]
    exact List.map_eq_flatMap.symm

theorem toInt64?_of_not_ascii (h : ¬ IsAscii run) : toInt64? (ofChars run) = none := by
  unfold IsAscii at h
  push Not at h
  obtain ⟨c, hc, hle⟩ := h
  obtain ⟨b, rest, hb, -⟩ := exists_start_ofChar c
  have hbyte : 0x80 ≤ b.toNat := bytes_ofChar_of_le hle b (by simp [hb])
  have hmem : b ∈ ofChars run := List.mem_flatMap.mpr ⟨c, hc, by simp [hb]⟩
  refine toInt64?_eq_none hmem (by omega) ⟨?_, ?_⟩ <;> rintro rfl <;> exact absurd hbyte (by decide)

theorem toInt64?_of_ascii (hne : run ≠ []) (hrun : ∀ c ∈ run, isDigit c = true)
    (hascii : IsAscii run) : toInt64? (ofChars run) = word? (runValue run) :=
  (isDecimal_of_ascii hne hrun hascii).toInt64?

theorem word?_natCast {n : Nat} (h : n < 2 ^ 63) : ∃ k : Int64, k.toInt = n ∧ word? n = some k := by
  have hmin : Int64.minValue.toInt ≤ (n : Int) := Int.le_trans (by decide) (Int.natCast_nonneg n)
  have hmax : (n : Int) ≤ Int64.maxValue.toInt := by
    have hvalue : Int64.maxValue.toInt = 2 ^ 63 - 1 := by decide
    rw [hvalue]
    omega
  have hword : word? n = some (Int64.ofInt n) := if_pos ⟨hmin, hmax⟩
  exact ⟨_, (word?_eq_some_iff.mp hword).symm, hword⟩

theorem word?_natCast_eq_none {n : Nat} (h : 2 ^ 63 ≤ n) : word? n = none := by
  have hmax : ¬ (n : Int) ≤ Int64.maxValue.toInt := by
    have hvalue : Int64.maxValue.toInt = 2 ^ 63 - 1 := by decide
    rw [hvalue]
    omega
  exact if_neg fun hn => hmax hn.2

end Text

/-! ## Parsing a run -/

/-- The run is parsed as its decimal value, and called out of range only where that is no signed
64-bit integer. -/
def ParsesAsValue (run : List Char) : Prop :=
  (Text.runValue run < 2 ^ 63 →
    ∃ n : Int64, n.toInt = Text.runValue run ∧
      parse .expression (Text.ofChars run) = .ok (.expr (.number n))) ∧
  ∀ t, parse .expression (Text.ofChars run) = .error (.badNumber t) → 2 ^ 63 ≤ Text.runValue run

theorem parseTerm_of_atom_error {t : Token} {e : ParseError} (hk : t.kind ≠ .parenOpen)
    (h : atom t = .error e) (rest : List ScanResult) :
    parseTerm (.ok t :: rest) = .error ⟨e, rest⟩ := by
  rw [parseTerm]
  simp only [anyToken, bind, Except.bind, hk, h, if_false]
  rfl

theorem parseExpression_of_error {s : List ScanResult} {f : ParseFailure}
    (h : parseTerm s = .error f) : parseExpression s = .error f := by
  have hstep : ∀ tier : Tier, tier.below.parse s = .error f → tier.level.parse s = .error f := by
    intro tier hbelow
    rw [Tier.parse_level, chain, hbelow]
    rfl
  exact hstep .less (hstep .plus (hstep .star h))

/-- A source of one token, which opens no bracket, is parsed as what the token stands for. -/
theorem parse_single {source : Text} {t : Token} (hk : t.kind ≠ .parenOpen)
    (h : (Scanner.ofText source [] .complete).Lexes [t]) :
    parse .expression source = (atom t).map .expr := by
  cases hatom : atom t with
  | ok e =>
    have hterm := derives_of_atom hatom
    exact parse_eq_ok_iff.mpr ⟨[t], h, .expression (.ofAdd (.ofMultiply (.ofTerm hterm)))⟩
  | error e =>
    obtain ⟨last, -, hstream⟩ := h.results (Nat.lt_succ_self _)
    have hparse := parseExpression_of_error (parseTerm_of_atom_error hk hatom [.ok last])
    rw [parse, Scanner.parse, Scanner.stream, hstream, parseResults, parseRoot, List.map_cons,
      List.map_nil, List.singleton_append]
    simp only [hparse]
    rfl

/-- A run of digits is scanned as one number, after which nothing is left. -/
theorem lexes_run {run : List Char} (hne : run ≠ []) (hrun : ∀ c ∈ run, Text.isDigit c = true) :
    (Scanner.ofText (Text.ofChars run) [] .complete).Lexes
      [⟨.number, Text.ofChars run, ⟨[], 1, 1⟩⟩] := by
  obtain ⟨c, cs, rfl⟩ := List.exists_cons_of_ne_nil hne
  have hrest : (Scanner.ofText (Text.ofChars (c :: cs)) [] .complete).rest = c :: cs ++ [] := by
    rw [List.append_nil]
    exact Text.chars_ofChars (c :: cs)
  have hnext := Scanner.next_numeral hrest closed_nil hrun
  have hkind : TokenKind.number ≠ .ending := by decide
  refine .token ?_ hkind ?_
  · rw [hnext]
    rfl
  · rw [hnext]
    exact .ending rfl rfl

theorem parse_run {run : List Char} (hne : run ≠ []) (hrun : ∀ c ∈ run, Text.isDigit c = true) :
    (∀ n, Text.toInt64? (Text.ofChars run) = some n →
      parse .expression (Text.ofChars run) = .ok (.expr (.number n))) ∧
    (Text.toInt64? (Text.ofChars run) = none →
      parse .expression (Text.ofChars run)
        = .error (.badNumber ⟨.number, Text.ofChars run, ⟨[], 1, 1⟩⟩)) := by
  have hkind : TokenKind.number ≠ .parenOpen := by decide
  have hparse := parse_single hkind (lexes_run hne hrun)
  constructor
  · intro n hn
    rw [hparse, atom, hn]
    rfl
  · intro hn
    rw [hparse, atom, hn]
    rfl

/-- The parser gives a run of digits its value just if the run is written in ASCII digits or its
value is out of range anyway. -/
theorem parsesAsValue_iff {run : List Char} (hne : run ≠ [])
    (hrun : ∀ c ∈ run, Text.isDigit c = true) :
    ParsesAsValue run ↔ Text.IsAscii run ∨ 2 ^ 63 ≤ Text.runValue run := by
  obtain ⟨hsome, hnone⟩ := parse_run hne hrun
  constructor
  · intro h
    by_cases hascii : Text.IsAscii run
    · exact .inl hascii
    · exact .inr (h.2 _ (hnone (Text.toInt64?_of_not_ascii hascii)))
  · intro h
    have hsmall : Text.runValue run < 2 ^ 63 → ∃ n : Int64, n.toInt = Text.runValue run ∧
        parse .expression (Text.ofChars run) = .ok (.expr (.number n)) := by
      intro hlt
      have hascii : Text.IsAscii run := h.resolve_right (by omega)
      obtain ⟨n, hvalue, hword⟩ := Text.word?_natCast hlt
      exact ⟨n, hvalue, hsome n ((Text.toInt64?_of_ascii hne hrun hascii).trans hword)⟩
    refine ⟨hsmall, fun t ht => ?_⟩
    by_contra hlt
    obtain ⟨n, -, hn⟩ := hsmall (by omega)
    rw [hn] at ht
    cases ht

theorem Munch.digits {run rest : List Char} (h : Munch .number run rest) :
    run ≠ [] ∧ ∀ c ∈ run, Text.isDigit c = true := by
  cases h with
  | number hc hcs hr => exact ⟨List.cons_ne_nil _ _, List.forall_mem_cons.mpr ⟨hc, hcs⟩⟩
  | punctuation hc =>
    unfold TokenKind.ofPunctuation? at hc
    split at hc <;> cases hc

/-- Whatever a scanner takes for one number is a run of digits, and parsing the run gives its
decimal value if and only if it is written in ASCII digits or out of range. Every run that is not
written in ASCII digits, or is out of range, is called out of range. -/
theorem parse_scanned_number {s : Scanner} {t : Token} (h : s.next.1 = .ok t)
    (hk : t.kind = .number) :
    ∃ run : List Char, run ≠ [] ∧ t.value = Text.ofChars run ∧
      (∀ c ∈ run, Text.isDigit c = true) ∧
      (ParsesAsValue run ↔ Text.IsAscii run ∨ 2 ^ 63 ≤ Text.runValue run) ∧
      (¬ Text.IsAscii run ∨ 2 ^ 63 ≤ Text.runValue run →
        parse .expression t.value = .error (.badNumber ⟨.number, t.value, ⟨[], 1, 1⟩⟩)) := by
  obtain ⟨run, rest, hmunch, hvalue⟩ := Scanner.munch_of_next h (by rw [hk]; decide)
  rw [hk] at hmunch
  obtain ⟨hne, hrun⟩ := hmunch.digits
  refine ⟨run, hne, hvalue, hrun, parsesAsValue_iff hne hrun, fun hout => ?_⟩
  rw [hvalue]
  refine (parse_run hne hrun).2 ?_
  by_cases hascii : Text.IsAscii run
  · rw [Text.toInt64?_of_ascii hne hrun hascii]
    exact Text.word?_natCast_eq_none (hout.resolve_left (not_not.mpr hascii))
  · exact Text.toInt64?_of_not_ascii hascii

/-- A number with leading zeros inside a sum. -/
theorem parse_scanned_number_padded :
    (Scanner.ofText "x + 007" [] .complete).next.2.next.2.next.1
        = .ok ⟨.number, "007", ⟨[], 1, 5⟩⟩ ∧
      ∃ run : List Char, run ≠ [] ∧ Text.ofString "007" = Text.ofChars run ∧
        (∀ c ∈ run, Text.isDigit c = true) ∧
        (ParsesAsValue run ↔ Text.IsAscii run ∨ 2 ^ 63 ≤ Text.runValue run) ∧
        (¬ Text.IsAscii run ∨ 2 ^ 63 ≤ Text.runValue run →
          parse .expression "007" = .error (.badNumber ⟨.number, "007", ⟨[], 1, 1⟩⟩)) := by
  have hnext : (Scanner.ofText "x + 007" [] .complete).next.2.next.2.next.1
      = .ok ⟨.number, "007", ⟨[], 1, 5⟩⟩ := by rfl
  exact ⟨hnext, parse_scanned_number hnext rfl⟩

/-- The Arabic digit three is one number for the scanner, its value is three, and it is called out
of range. -/
theorem parse_arabic_three :
    (Scanner.ofText (Text.ofChars ['٣']) [] .complete).next.1
        = .ok ⟨.number, Text.ofChars ['٣'], ⟨[], 1, 1⟩⟩ ∧
      Text.runValue ['٣'] = 3 ∧
      parse .expression (Text.ofChars ['٣'])
        = .error (.badNumber ⟨.number, Text.ofChars ['٣'], ⟨[], 1, 1⟩⟩) ∧
      ¬ ParsesAsValue ['٣'] := by
  have hrun : ∀ c ∈ ['٣'], Text.isDigit c = true := List.all_eq_true.mp (by decide)
  have hvalue : Text.runValue ['٣'] = 3 := by decide
  have hne : ['٣'] ≠ [] := List.cons_ne_nil _ _
  have hnext : (Scanner.ofText (Text.ofChars ['٣']) [] .complete).next.1
      = .ok ⟨.number, Text.ofChars ['٣'], ⟨[], 1, 1⟩⟩ := by
    cases lexes_run hne hrun with
    | token h hk hs => exact h
  have hparse := (parse_run hne hrun).2 (by decide)
  refine ⟨hnext, hvalue, hparse, fun h => ?_⟩
  have hout := h.2 _ hparse
  rw [hvalue] at hout
  omega

end Denotation
