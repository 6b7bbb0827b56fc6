import Denotation.Json.Reading
import Denotation.Proofs.Decimals
import Denotation.Proofs.Quotation

/-!
# JSON reads back

What is written for a value of well-formed texts, integers and nested objects is read as that value.
The reader is a machine that takes one byte at a time, so a piece of text is described by the state
it leads the machine to, whatever follows it (`Leads`). Two pieces compose when the second starts in
the state that the first leads to.

A number is the exception: only the byte behind it ends it. Members of an object are therefore
described together with the byte behind them (`Delivers`).
-/

namespace Denotation.Json

variable {mode mode' : Mode} {stack stack' : List Container} {st : State} {t t' : Text}
  {b : UInt8}

/-! ## States of the reader -/

/-- Reads on from a state; `i` bytes were read before. -/
def State.resume (i : Nat) (t : Text) : State → Except ReadError Json
  | .reading mode stack => readFrom mode stack i t
  | .done j => .ok j

/-- The text takes the reader from one state to another, wherever it stands. -/
def Leads (mode : Mode) (stack : List Container) (t : Text) (st : State) : Prop :=
  ∀ i rest, readFrom mode stack i (t ++ rest) = st.resume (i + t.length) rest

theorem Leads.nil : Leads mode stack [] (.reading mode stack) := fun _ _ => rfl

/-- A step of the reader is a text of one byte. -/
theorem Leads.byte (h : ∀ i rest, step mode stack i b rest = .ok st) : Leads mode stack [b] st := by
  intro i rest
  show readFrom mode stack i (b :: rest) = _
  rw [readFrom, h i rest]
  cases st <;> rfl

theorem Leads.append (h : Leads mode stack t (.reading mode' stack'))
    (h' : Leads mode' stack' t' st) : Leads mode stack (t ++ t') st := by
  intro i rest
  rw [List.append_assoc, h i (t' ++ rest), List.length_append, ← Nat.add_assoc]
  exact h' (i + t.length) rest

theorem Leads.cons (h : ∀ i rest, step mode stack i b rest = .ok (.reading mode' stack'))
    (h' : Leads mode' stack' t st) : Leads mode stack (b :: t) st :=
  (Leads.byte h).append h'

/-! ## Strings -/

/-- The reader collects the text as part of a string. -/
def Collects (t : Text) : Prop :=
  ∀ isKey read stack,
    Leads (.string isKey read 0) stack t (.reading (.string isKey (t.reverse ++ read) 0) stack)

theorem Collects.nil : Collects [] := fun _ _ _ => Leads.nil

theorem Collects.append (h : Collects t) (h' : Collects t') : Collects (t ++ t') := by
  intro isKey read stack
  rw [List.reverse_append, List.append_assoc]
  exact (h isKey read stack).append (h' isKey _ stack)

theorem collects_plain (h : ∀ b ∈ t, b ≠ 0x22 ∧ b ≠ 0x5C ∧ 0x20 ≤ b.toNat) : Collects t := by
  induction t with
  | nil => exact .nil
  | cons b t ih =>
    obtain ⟨hquote, hback, hlow⟩ := h b List.mem_cons_self
    have hb : Collects [b] := by
      intro isKey read stack
      refine .byte fun i rest => ?_
      have hlt : ¬ b < 0x20 := by
        rw [UInt8.lt_iff_toNat_lt]
        exact Nat.not_lt.mpr hlow
      simp [step, stepString, hquote, hback, hlt]
    exact hb.append (ih fun b' hb' => h b' (List.mem_cons_of_mem b hb'))

/-- Bytes that belong to an escape sequence are collected whatever they are. -/
theorem leads_escaped (t : Text) (isKey : Bool) (read : Text) (stack : List Container) :
    Leads (.string isKey read t.length) stack t
      (.reading (.string isKey (t.reverse ++ read) 0) stack) := by
  induction t generalizing read with
  | nil => exact .nil
  | cons b t ih =>
    rw [List.reverse_cons, List.append_assoc]
    exact .cons (fun i rest => rfl) (ih (b :: read))

theorem collects_escape (h : ∀ i rest, escapeLength i (0x5C :: (t ++ rest)) = .ok (t.length + 1)) :
    Collects (0x5C :: t) := by
  intro isKey read stack i rest
  have hstep : step (.string isKey read 0) stack i 0x5C (t ++ rest)
      = .ok (.reading (.string isKey (0x5C :: read) t.length) stack) := by
    simp [step, stepString, h i rest, Except.map]
  have hrest := leads_escaped t isKey (0x5C :: read) stack (i + 1) rest
  rw [List.cons_append, readFrom, hstep]
  simp only
  rw [hrest, List.reverse_cons, List.append_assoc, List.length_cons, Nat.add_assoc,
    Nat.add_comm 1]
  rfl

/-- The text stands for the character inside a JSON string: the reader collects it, and what is
collected means the character. -/
structure Stands (t : Text) (c : Char) : Prop where
  collects : Collects t
  means : ∃ cs, t = Text.ofChars cs ∧
    ∀ rest, unescapeFrom 0 (cs ++ rest) = Text.ofChar c ++ unescapeFrom 0 rest

/-- The characters that need no escape. -/
theorem stands_self {c : Char} (hquote : c.toNat ≠ 0x22) (hback : c.toNat ≠ 0x5C)
    (hlow : 0x20 ≤ c.toNat) : Stands (Text.ofChar c) c := by
  refine ⟨collects_plain fun b hb => ?_, [c], by simp [Text.ofChars], fun rest => ?_⟩
  · by_cases h : c.toNat < 0x80
    · rw [Text.ofChar, if_pos h, List.mem_singleton] at hb
      have hn : b.toNat = c.toNat := by
        rw [hb]
        exact Text.toNat_ofNat_byte (by omega)
      refine ⟨?_, ?_, by omega⟩
      · rintro rfl
        exact hquote hn.symm
      · rintro rfl
        exact hback hn.symm
    · have hb := Text.bytes_ofChar_of_le (by omega) b hb
      refine ⟨?_, ?_, by omega⟩ <;> rintro rfl <;> exact absurd hb (by decide)
  · have hc : c ≠ '\\' := by
      rintro rfl
      exact hback rfl
    simp [unescapeFrom, hc]

/-- The escapes with a letter. -/
theorem stands_letter {c d : Char} (hc : unescapeLetter d = c) (hd : Text.ofChar d = [b])
    (hu : d ≠ 'u') (hb : b ≠ 0x75) (hmem : b ∈ Text.ofString "bfnrt\\/\"") :
    Stands [0x5C, b] c := by
  refine ⟨collects_escape fun i rest => ?_, ['\\', d], ?_, fun rest => ?_⟩
  · simp [escapeLength, hb, hmem]
  · rw [Text.ofChars_cons, Text.ofChars_cons, hd]
    rfl
  · have hunit : unit? ('\\' :: d :: rest) = none := by
      unfold unit?
      split
      · rename_i h
        simp only [List.cons.injEq, true_and] at h
        exact absurd h.1 hu
      · rfl
    simp [unescapeFrom, hunit, hc]

theorem length_hex (width n : Nat) : (Text.hex width n).length = width := by
  induction width generalizing n with
  | zero => rfl
  | succ width ih => simp [Text.hex, ih]

theorem isHexByte_of_mem_hex {width n : Nat} (h : b ∈ Text.hex width n) : isHexByte b = true := by
  induction width generalizing n with
  | zero => cases h
  | succ width ih =>
    have hd : ∀ m < 16, isHexByte (Text.hexDigit m) = true := by decide
    rcases List.mem_append.mp h with h | h
    · exact ih h
    · rw [List.mem_singleton.mp h]
      exact hd _ (Nat.mod_lt n (by decide))

/-- However few of its bytes lie in the block looked at, an escape with four digits is found. -/
theorem hexEscape_hex (i n : Nat) (rest : Text) :
    hexEscape i (0x5C :: 0x75 :: (Text.hex 4 n ++ rest)) = .ok 6 := by
  have hlen := length_hex 4 n
  have htake : (Text.hex 4 n ++ rest).take 4 = Text.hex 4 n := List.take_left' hlen
  have hstarts : ∀ k, startsHexEscape
      (((0x5C :: 0x75 :: (Text.hex 4 n ++ rest)).take k).take 6) = true := by
    intro k
    refine List.all_eq_true.mpr fun b hb => ?_
    suffices hmem : b ∈ Text.hex 4 n from isHexByte_of_mem_hex hmem
    rw [List.take_take, List.drop_take] at hb
    have hsub := List.take_subset_take_left (Text.hex 4 n ++ rest)
      (show min 6 k - 2 ≤ 4 by omega)
    rw [htake] at hsub
    exact hsub hb
  have hsix : (0x5C :: 0x75 :: (Text.hex 4 n ++ rest)).take 6 = 0x5C :: 0x75 :: Text.hex 4 n := by
    rw [List.take_succ_cons, List.take_succ_cons, htake]
  have hwhole := hstarts 6
  rw [List.take_take, Nat.min_self, hsix] at hwhole
  simp [hexEscape, inBlock, hstarts, hsix, hwhole, hlen]

theorem unescapeFrom_length_append (cs rest : List Char) :
    unescapeFrom cs.length (cs ++ rest) = unescapeFrom 0 rest := by
  induction cs with
  | nil => rfl
  | cons c cs ih => exact ih

/-- The escapes with four hexadecimal digits. -/
theorem stands_hex {c : Char} (h : c.toNat < 0x10000) : Stands ("\\u" ++ Text.hex 4 c.toNat) c := by
  have hvalid := Text.toNat_valid c
  refine ⟨collects_escape (t := 0x75 :: Text.hex 4 c.toNat) fun i rest => ?_,
    '\\' :: 'u' :: Text.hexChars 4 c.toNat, ?_, fun rest => ?_⟩
  · have hu : ((0x75 : UInt8) == 0x75) = true := rfl
    rw [List.cons_append, escapeLength, if_pos hu, hexEscape_hex, List.length_cons, length_hex]
  · rw [Text.ofChars_cons, Text.ofChars_cons, Text.ofChars_hexChars]
    rfl
  · have hunit : unit? ('\\' :: 'u' :: (Text.hexChars 4 c.toNat ++ rest)) = some c.toNat :=
      Text.numeral?_hexChars_of_lt 4 (by omega) rest
    have hsur : isSurrogate c.toNat = false := by
      simp only [isSurrogate, Bool.and_eq_false_iff, decide_eq_false_iff_not]
      omega
    have hskip := unescapeFrom_length_append (Text.hexChars 4 c.toNat) rest
    rw [Text.length_hexChars] at hskip
    simp only [List.cons_append, unescapeFrom, hunit, hsur, Char.ofNat_toNat, hskip]
    rfl

/-- A short escape stands for its character. -/
theorem stands_short {c : Char} {b : UInt8} (h : shortEscape? c = some b) : Stands [0x5C, b] c := by
  unfold shortEscape? at h
  split at h <;> cases h
  all_goals
    rename_i hn
    rw [← Char.ofNat_toNat c, hn]
  · exact stands_letter (d := '"') rfl rfl (by decide) (by decide) (by decide)
  · exact stands_letter (d := '\\') rfl rfl (by decide) (by decide) (by decide)
  · exact stands_letter (d := 'b') rfl rfl (by decide) (by decide) (by decide)
  · exact stands_letter (d := 't') rfl rfl (by decide) (by decide) (by decide)
  · exact stands_letter (d := 'n') rfl rfl (by decide) (by decide) (by decide)
  · exact stands_letter (d := 'f') rfl rfl (by decide) (by decide) (by decide)
  · exact stands_letter (d := 'r') rfl rfl (by decide) (by decide) (by decide)

/-- What is written for a character stands for it. -/
theorem stands_escape (p : Text.Piece) : Stands (escape p) p.char := by
  unfold escape
  cases hshort : shortEscape? p.char with
  | some b => exact stands_short hshort
  | none =>
    by_cases hesc : isEscaped p.char = true
    · simp only [if_pos hesc]
      simp only [isEscaped, Bool.or_eq_true, decide_eq_true_eq, beq_iff_eq] at hesc
      refine stands_hex ?_
      rcases hesc with ((((hesc | hesc) | hesc) | hesc) | hesc) | hesc
      · omega
      · rw [hesc]; decide
      · rw [hesc]; decide
      · rw [hesc]; decide
      · omega
      · omega
    · simp only [if_neg hesc]
      simp only [isEscaped, Bool.or_eq_true, decide_eq_true_eq, not_or] at hesc
      refine stands_self ?_ ?_ (by omega)
      · intro hn
        simp [shortEscape?, hn] at hshort
      · intro hn
        simp [shortEscape?, hn] at hshort

/-- What is written for pieces of a well-formed text is collected and means their bytes. -/
theorem escapes_spec (ps : List Text.Piece) (h : ∀ p ∈ ps, p.bytes = Text.ofChar p.char) :
    Collects (ps.flatMap escape) ∧
      ∃ cs, ps.flatMap escape = Text.ofChars cs ∧ unescapeFrom 0 cs = Text.ofPieces ps := by
  induction ps with
  | nil => exact ⟨.nil, [], rfl, rfl⟩
  | cons p ps ih =>
    have hp := h p List.mem_cons_self
    obtain ⟨hfirst, cs, hcs, hmeans⟩ := stands_escape p
    obtain ⟨hmore, ds, hds, hrest⟩ := ih fun q hq => h q (List.mem_cons_of_mem p hq)
    refine ⟨hfirst.append hmore, cs ++ ds, ?_, ?_⟩
    · rw [List.flatMap_cons, hcs, hds, Text.ofChars_append]
    · rw [hmeans, hrest, ← hp]
      rfl

/-- The pieces of a well-formed text are the encodings of its characters. -/
theorem bytes_of_isUtf8 (ht : t.isUtf8 = true) : ∀ p ∈ t.pieces, p.bytes = Text.ofChar p.char := by
  intro p hp
  have hvalid := List.all_eq_true.mp ht p hp
  rcases Text.wellFormed_of_mem_pieces hp with h | ⟨b, rfl⟩
  · exact h
  · exact absurd hvalid (by simp [Text.Piece.isInvalid])

/-- A string up to its closing quote leads to the state at the end of the text it was written for.
-/
theorem leads_string (ht : t.isUtf8 = true) (isKey : Bool) (stack : List Container) :
    ∃ read, unescape read.reverse = t ∧
      Leads (.string isKey [] 0) stack (t.pieces.flatMap escape ++ [0x22])
        (endString isKey read stack) := by
  obtain ⟨hcollects, cs, hcs, hmeans⟩ := escapes_spec t.pieces (bytes_of_isUtf8 ht)
  refine ⟨(t.pieces.flatMap escape).reverse, ?_, ?_⟩
  · rw [List.reverse_reverse, hcs, unescape, Text.chars_ofChars, hmeans, Text.ofPieces_pieces]
  · have h := (hcollects isKey [] stack).append (Leads.byte (b := 0x22) fun i rest => rfl)
    rwa [List.append_nil] at h

/-- The string of a key leads to the colon. -/
theorem leads_key (ht : t.isUtf8 = true) (orClose : Bool) (members : List (Text × Json))
    (key : Text) (outer : List Container) :
    Leads (.key orClose) (.object members key :: outer) (writeString t)
      (.reading .colon (.object members t :: outer)) := by
  obtain ⟨read, hread, h⟩ := leads_string ht true (.object members key :: outer)
  have hend : endString true read (.object members key :: outer)
      = .reading .colon (.object members t :: outer) := by
    rw [← hread]
    rfl
  rw [hend] at h
  exact .cons (fun i rest => rfl) h

theorem leads_text (ht : t.isUtf8 = true) (stack : List Container) :
    Leads (.value false) stack (writeString t) (finish (.string t) stack) := by
  obtain ⟨read, hread, h⟩ := leads_string ht false stack
  have hend : endString false read stack = finish (.string t) stack := by
    rw [← hread]
    rfl
  rw [hend] at h
  exact .cons (fun i rest => rfl) h

/-! ## Words and numbers -/

theorem leads_word (j : Json) (stack : List Container) (whole rest : Text) (b : UInt8) :
    Leads (.word (b :: rest) whole j) stack (b :: rest) (finish j stack) := by
  induction rest generalizing b with
  | nil =>
    refine .byte fun i rest => ?_
    simp [step]
  | cons c rest ih =>
    refine .cons (fun i more => ?_) (ih c)
    simp [step]

theorem leads_null (stack : List Container) :
    Leads (.value false) stack (write .null) (finish .null stack) :=
  .cons (fun _ _ => rfl) (leads_word .null stack _ _ _)

theorem leads_bool (v : Bool) (stack : List Container) :
    Leads (.value false) stack (write (.bool v)) (finish (.bool v) stack) := by
  cases v with
  | true => exact .cons (fun i rest => rfl) (leads_word (.bool true) stack _ _ _)
  | false => exact .cons (fun i rest => rfl) (leads_word (.bool false) stack _ _ _)

theorem isDigitByte_iff (b : UInt8) : isDigitByte b = true ↔ 0x30 ≤ b.toNat ∧ b.toNat ≤ 0x39 := by
  simp [isDigitByte, UInt8.le_iff_toNat_le]

theorem leads_digits (h : ∀ b ∈ t, isDigitByte b = true) (read : Text) (stack : List Container) :
    Leads (.number read .whole) stack t (.reading (.number (t.reverse ++ read) .whole) stack) := by
  induction t generalizing read with
  | nil => exact .nil
  | cons b t ih =>
    rw [List.reverse_cons, List.append_assoc]
    refine .cons (fun i rest => ?_) (ih (fun c hc => h c (List.mem_cons_of_mem b hc)) (b :: read))
    simp [step, stepNumber, h b List.mem_cons_self]

/-- A number has no leading zero. -/
theorem ofNat_eq_cons {n : Nat} (h : 0 < n) :
    ∃ b t, Text.ofNat n = b :: t ∧ isDigitByte b = true ∧ b ≠ 0x30 ∧
      ∀ c ∈ t, isDigitByte c = true := by
  have hdigits : ∀ b ∈ Text.ofNat n, isDigitByte b = true := fun b hb =>
    (isDigitByte_iff b).mpr (Text.digits_ofNat n b hb)
  obtain ⟨b, t, hcons, hb⟩ : ∃ b t, Text.ofNat n = b :: t ∧ b ≠ 0x30 := by
    clear hdigits
    induction n using Nat.strong_induction_on with
    | _ n ih =>
      rw [Text.ofNat]
      split
      · refine ⟨_, [], rfl, fun hzero => ?_⟩
        have hn := Text.toNat_ofNat_byte (n := 0x30 + n) (by omega)
        rw [hzero] at hn
        have : 0x30 = 0x30 + n := hn
        omega
      · obtain ⟨b, t, hcons, hb⟩ := ih (n / 10) (by omega) (by omega)
        exact ⟨b, t ++ [UInt8.ofNat (0x30 + n % 10)], by rw [hcons]; rfl, hb⟩
  rw [hcons] at hdigits
  exact ⟨b, t, hcons, hdigits b List.mem_cons_self, hb, fun c hc =>
    hdigits c (List.mem_cons_of_mem b hc)⟩

/-- A number that can end where it stands. -/
def NumberPhase.Whole (phase : NumberPhase) : Prop := phase = .zero ∨ phase = .whole

/-- The digits of a natural number, where the first of them is told from the others. -/
theorem leads_nat (mode : Mode) (n : Nat) (read : Text) (stack : List Container)
    (hzero : ∀ i rest, step mode stack i 0x30 rest
      = .ok (.reading (.number (0x30 :: read) .zero) stack))
    (hdigit : ∀ b, isDigitByte b = true → b ≠ 0x30 → ∀ i rest, step mode stack i b rest
      = .ok (.reading (.number (b :: read) .whole) stack)) :
    ∃ phase, phase.Whole ∧
      Leads mode stack (Text.ofNat n)
        (.reading (.number ((Text.ofNat n).reverse ++ read) phase) stack) := by
  rcases Nat.eq_zero_or_pos n with rfl | hn
  · have hofNat : Text.ofNat 0 = [0x30] := by rw [Text.ofNat, if_pos (by decide)]; rfl
    rw [hofNat]
    exact ⟨.zero, Or.inl rfl, .byte hzero⟩
  · obtain ⟨b, t, hcons, hb, hne, ht⟩ := ofNat_eq_cons hn
    refine ⟨.whole, Or.inr rfl, ?_⟩
    rw [hcons, List.reverse_cons, List.append_assoc]
    exact .cons (hdigit b hb hne) (leads_digits ht (b :: read) stack)

theorem step_value_digit {i : Nat} {rest : Text} (hb : isDigitByte b = true) (hne : b ≠ 0x30) :
    step (.value false) stack i b rest = .ok (.reading (.number [b] .whole) stack) := by
  have hrange := (isDigitByte_iff b).mp hb
  have hother : ∀ c : UInt8, c.toNat < 0x30 ∨ 0x39 < c.toNat → b ≠ c := by
    rintro c hc rfl
    omega
  simp [step, isSpace, beginValue, hb, hne, hother 0x20 (by decide), hother 0x09 (by decide),
    hother 0x0A (by decide), hother 0x0D (by decide), hother 0x7B (by decide),
    hother 0x5B (by decide), hother 0x22 (by decide), hother 0x2D (by decide)]

/-- An integer leads into a number that the next byte can end. -/
theorem leads_int64 (n : Int64) (stack : List Container) :
    ∃ phase, phase.Whole ∧
      Leads (.value false) stack (Text.ofInt64 n)
        (.reading (.number (Text.ofInt64 n).reverse phase) stack) := by
  unfold Text.ofInt64
  cases n.toInt with
  | ofNat k =>
    have h := leads_nat (.value false) k [] stack (fun i rest => rfl)
      fun b hb hne i rest => step_value_digit hb hne
    rwa [List.append_nil] at h
  | negSucc k =>
    obtain ⟨phase, hphase, h⟩ := leads_nat (.number [0x2D] .minus) (k + 1) [0x2D] stack
      (fun i rest => rfl) fun b hb hne i rest => by simp [step, stepNumber, hb, hne]
    refine ⟨phase, hphase, ?_⟩
    rw [Text.ofInt, List.reverse_cons]
    exact .cons (fun i rest => rfl) h

/-! ## Objects -/

/-- The bytes that may stand behind a member. -/
def EndsMember (b : UInt8) : Prop := b = 0x2C ∨ b = 0x7D

/-- What ends a member ends the number it consists of. -/
theorem step_number_end {phase : NumberPhase} (hphase : phase.Whole) (hb : EndsMember b)
    (read : Text) (members : List (Text × Json)) (key : Text) (outer : List Container) (i : Nat)
    (rest : Text) :
    step (.number read phase) (.object members key :: outer) i b rest
      = step .after (.object ((key, .number read.reverse) :: members) key :: outer) i b rest := by
  rcases hphase with rfl | rfl <;> rcases hb with rfl | rfl <;> rfl

/-- The text is read as the value of a member, up to the byte that ends the member, at places with
`depth` levels to spare. -/
def Delivers (depth : Nat) (t : Text) (j : Json) : Prop :=
  ∀ members key outer i b rest, outer.length + 1 + depth ≤ maxDepth → EndsMember b →
    readFrom (.value false) (.object members key :: outer) i (t ++ b :: rest)
      = readFrom .after (.object ((key, j) :: members) key :: outer) (i + t.length) (b :: rest)

theorem delivers_of_leads {depth : Nat} {j : Json}
    (h : ∀ stack, stack.length + depth ≤ maxDepth → Leads (.value false) stack t (finish j stack)) :
    Delivers depth t j := by
  intro members key outer i b rest hdepth hb
  exact h (.object members key :: outer) hdepth i (b :: rest)

theorem delivers_int64 (depth : Nat) (n : Int64) :
    Delivers depth (Text.ofInt64 n) (.number (Text.ofInt64 n)) := by
  intro members key outer i b rest hdepth hb
  obtain ⟨phase, hphase, h⟩ := leads_int64 n (.object members key :: outer)
  have hend := step_number_end hphase hb (Text.ofInt64 n).reverse members key outer
  rw [h i (b :: rest), State.resume, readFrom, readFrom, hend, List.reverse_reverse]

/-- A member leads from where a key is expected to the byte behind the member. -/
theorem readFrom_member {depth : Nat} {k : Text} {j : Json} (hk : k.isUtf8 = true)
    (hj : Delivers depth j.write j) (orClose : Bool) (members : List (Text × Json)) (key : Text)
    {outer : List Container} (i : Nat) (rest : Text) (hdepth : outer.length + 1 + depth ≤ maxDepth)
    (hb : EndsMember b) :
    readFrom (.key orClose) (.object members key :: outer) i
        (Text.concat [writeString k, ":", j.write] ++ b :: rest)
      = readFrom .after (.object ((k, j) :: members) k :: outer)
        (i + (Text.concat [writeString k, ":", j.write]).length) (b :: rest) := by
  have hcolon : Leads (.key orClose) (.object members key :: outer) (writeString k ++ [0x3A])
      (.reading (.value false) (.object members k :: outer)) :=
    (leads_key hk orClose members key outer).append (.byte fun i rest => rfl)
  have htext : Text.concat [writeString k, ":", j.write]
      = (writeString k ++ [0x3A]) ++ j.write := by
    rw [List.append_assoc]
    show _ ++ ([0x3A] ++ (j.write ++ [])) = _
    rw [List.append_nil]
  have hvalue := hj members k outer (i + (writeString k ++ [0x3A]).length) b rest hdepth hb
  rw [Nat.add_assoc, ← List.length_append] at hvalue
  rw [htext, List.append_assoc, hcolon i (j.write ++ b :: rest)]
  exact hvalue

theorem join_writeMembers (k : Text) (j : Json) (q : Text × Json) (ms : List (Text × Json)) :
    Text.join "," (writeMembers ((k, j) :: q :: ms))
      = Text.concat [writeString k, ":", j.write]
        ++ ([0x2C] ++ Text.join "," (writeMembers (q :: ms))) := by
  rw [← List.append_assoc]
  rfl

/-- The members of an object, from where a key is expected to the closing brace. -/
theorem leads_members {depth : Nat} {ms : List (Text × Json)} (hne : ms ≠ [])
    (hk : ∀ p ∈ ms, p.1.isUtf8 = true) (hj : ∀ p ∈ ms, Delivers depth p.2.write p.2)
    (orClose : Bool) (members : List (Text × Json)) (key : Text) {outer : List Container}
    (hdepth : outer.length + 1 + depth ≤ maxDepth) :
    Leads (.key orClose) (.object members key :: outer) (Text.join "," (writeMembers ms) ++ [0x7D])
      (finish (.object (members.reverse ++ ms)) outer) := by
  induction ms generalizing orClose members key with
  | nil => exact absurd rfl hne
  | cons p ms ih =>
    obtain ⟨k, j⟩ := p
    have hk' := hk (k, j) List.mem_cons_self
    have hj' := hj (k, j) List.mem_cons_self
    intro i rest
    cases ms with
    | nil =>
      have hmember := readFrom_member hk' hj' orClose members key i rest hdepth
        (b := 0x7D) (Or.inr rfl)
      have hclose : Leads .after (.object ((k, j) :: members) k :: outer) [0x7D]
          (finish (.object (members.reverse ++ [(k, j)])) outer) :=
        .byte fun i rest => by simp [step, afterValue, isSpace]
      rw [List.append_assoc, List.length_append, ← Nat.add_assoc]
      exact hmember.trans (hclose _ rest)
    | cons q ms =>
      have hmember := readFrom_member hk' hj' orClose members key i
        (Text.join "," (writeMembers (q :: ms)) ++ [0x7D] ++ rest) hdepth (b := 0x2C) (Or.inl rfl)
      have hcomma : Leads .after (.object ((k, j) :: members) k :: outer) [0x2C]
          (.reading (.key false) (.object ((k, j) :: members) k :: outer)) :=
        .byte fun i rest => rfl
      have hmore := ih (by simp) (fun p hp => hk p (List.mem_cons_of_mem _ hp))
        (fun p hp => hj p (List.mem_cons_of_mem _ hp)) false ((k, j) :: members) k
      rw [List.reverse_cons, List.append_assoc] at hmore
      have hrest := (hcomma.append hmore)
        (i + (Text.concat [writeString k, ":", j.write]).length) rest
      rw [join_writeMembers]
      simp only [List.append_assoc, List.length_append] at hmember hrest ⊢
      simp only [Nat.add_assoc] at hrest ⊢
      exact hmember.trans hrest

/-- A value that comes back as it is: integers, words, well-formed texts and objects of such values
under well-formed keys, nested at most `depth` levels. -/
inductive Plain : Nat → Json → Prop where
  | null (depth : Nat) : Plain depth .null
  | bool (depth : Nat) (b : Bool) : Plain depth (.bool b)
  | int (depth : Nat) (n : Int64) : Plain depth (.number (Text.ofInt64 n))
  | string (depth : Nat) {t : Text} (ht : t.isUtf8 = true) : Plain depth (.string t)
  | object {depth : Nat} {members : List (Text × Json)} (hk : ∀ p ∈ members, p.1.isUtf8 = true)
      (hj : ∀ p ∈ members, Plain depth p.2) : Plain (depth + 1) (.object members)

/-- An object is read up to its closing brace if its members are. -/
theorem leads_object {depth : Nat} {ms : List (Text × Json)} (hk : ∀ p ∈ ms, p.1.isUtf8 = true)
    (hj : ∀ p ∈ ms, Delivers depth p.2.write p.2) (stack : List Container)
    (hdepth : stack.length + (depth + 1) ≤ maxDepth) :
    Leads (.value false) stack (write (.object ms)) (finish (.object ms) stack) := by
  have hopen : ∀ i rest, step (.value false) stack i 0x7B rest
      = .ok (.reading (.key true) (.object [] [] :: stack)) := by
    intro i rest
    have hroom : ¬ maxDepth ≤ stack.length := by omega
    simp [step, isSpace, beginValue, openContainer, hroom]
  have hwrite : write (.object ms) = 0x7B :: (Text.join "," (writeMembers ms) ++ [0x7D]) := by
    rw [write]
    rfl
  rw [hwrite]
  refine .cons hopen ?_
  by_cases hne : ms = []
  · subst hne
    exact .byte fun i rest => rfl
  · exact leads_members hne hk hj true [] [] (by omega)

theorem Plain.delivers {depth : Nat} {j : Json} (h : Plain depth j) : Delivers depth j.write j := by
  induction h with
  | null depth => exact delivers_of_leads fun stack _ => leads_null stack
  | bool depth v => exact delivers_of_leads fun stack _ => leads_bool v stack
  | int depth n => exact delivers_int64 depth n
  | string depth ht => exact delivers_of_leads fun stack _ => leads_text ht stack
  | object hk _ ih => exact delivers_of_leads fun stack => leads_object hk ih stack

/-- Reading what was written for an object gives the object back. -/
theorem read_write_object {depth : Nat} {ms : List (Text × Json)} (h : Plain depth (.object ms))
    (hdepth : depth ≤ maxDepth) : read (write (.object ms)) = .ok (.object ms) := by
  cases h with
  | object hk hj =>
    have hleads := leads_object hk (fun p hp => (hj p hp).delivers) [] (by simpa using hdepth)
    have hread := hleads 0 []
    rwa [List.append_nil] at hread

end Denotation.Json
