import Mathlib.Tactic
import Denotation.Text.Basic

/-!
# Texts and their characters

Decoding undoes encoding: the characters of `ofChars cs ++ t` are those of `cs` followed by those of
`t`, so a text that is put together from encoded characters is read back piece by piece. In the
other direction the bytes of the pieces of a text concatenate to the text again, and every piece is
either the encoding of its character or a single byte that is no character.
-/

namespace Denotation.Text

/-! ## Code points and bytes -/

theorem toNat_ofNat_of_valid {n : Nat} (h : n.isValidChar) : (Char.ofNat n).toNat = n := by
  unfold Char.ofNat
  rw [dif_pos h]
  rfl

/-- A code point lies below the surrogates or between them and U+10FFFF. -/
theorem toNat_valid (c : Char) :
    c.toNat < 0xD800 ∨ (0xE000 ≤ c.toNat ∧ c.toNat < 0x110000) := by
  have h : c.toNat.isValidChar := c.valid
  simp only [Nat.isValidChar] at h
  omega

theorem toNat_ofNat_byte {n : Nat} (h : n < 256) : (UInt8.ofNat n).toNat = n :=
  UInt8.toNat_ofNat_of_lt' h

theorem ofNat_eq_byte {n : Nat} {b : UInt8} (h : n = b.toNat) : UInt8.ofNat n = b := by
  rw [h]
  exact UInt8.ofNat_toNat

/-- A character that is not ASCII is encoded in bytes that are not. -/
theorem bytes_ofChar_of_le {c : Char} (h : 0x80 ≤ c.toNat) : ∀ b ∈ ofChar c, 0x80 ≤ b.toNat := by
  have hvalid := toNat_valid c
  intro b hb
  unfold ofChar at hb
  dsimp only at hb
  rw [if_neg (by omega)] at hb
  split_ifs at hb
  all_goals
    simp only [List.mem_cons, List.not_mem_nil, or_false] at hb
    rcases hb with rfl | rfl | rfl | rfl <;> rw [toNat_ofNat_byte (by omega)] <;> omega

/-! ## Decoding what was encoded -/

theorem isTail_ofNat {n : Nat} (h : n < 64) : isTail (UInt8.ofNat (0x80 + n)) = true := by
  have hn := toNat_ofNat_byte (n := 0x80 + n) (by omega)
  simp only [isTail, hn, Bool.and_eq_true, decide_eq_true_eq]
  omega

theorem two?_encoded {n : Nat} (h : 0x80 ≤ n) (h' : n < 0x800) :
    two? (UInt8.ofNat (0xC0 + n / 64)) (UInt8.ofNat (0x80 + n % 64)) = some (Char.ofNat n) := by
  have ha := toNat_ofNat_byte (n := 0xC0 + n / 64) (by omega)
  have hb := toNat_ofNat_byte (n := 0x80 + n % 64) (by omega)
  have hn : (0xC0 + n / 64 - 0xC0) * 64 + (0x80 + n % 64 - 0x80) = n := by omega
  unfold two?
  rw [isTail_ofNat (by omega), ha, hb, hn, if_pos]
  simp only [Bool.and_true, Bool.and_eq_true, decide_eq_true_eq]
  omega

theorem two?_eq_none {a b : UInt8} (h : 0xE0 ≤ a.toNat) : two? a b = none := by
  unfold two?
  rw [if_neg]
  simp only [Bool.and_eq_true, decide_eq_true_eq]
  omega

theorem three?_encoded {n : Nat} (h : 0x800 ≤ n) (h' : n < 0x10000)
    (hs : n < 0xD800 ∨ 0xE000 ≤ n) :
    three? (UInt8.ofNat (0xE0 + n / 4096)) (UInt8.ofNat (0x80 + n / 64 % 64))
      (UInt8.ofNat (0x80 + n % 64)) = some (Char.ofNat n) := by
  have ha := toNat_ofNat_byte (n := 0xE0 + n / 4096) (by omega)
  have hb := toNat_ofNat_byte (n := 0x80 + n / 64 % 64) (by omega)
  have hc := toNat_ofNat_byte (n := 0x80 + n % 64) (by omega)
  have hn : (0xE0 + n / 4096 - 0xE0) * 4096 + (0x80 + n / 64 % 64 - 0x80) * 64
      + (0x80 + n % 64 - 0x80) = n := by omega
  unfold three?
  simp only [isTail_ofNat (n := n / 64 % 64) (by omega), isTail_ofNat (n := n % 64) (by omega), ha,
    hb, hc, hn]
  rw [if_pos]
  simp only [Bool.and_true, Bool.and_eq_true, Bool.not_eq_true', decide_eq_true_eq,
    Bool.and_eq_false_iff, decide_eq_false_iff_not]
  omega

theorem three?_eq_none {a b c : UInt8} (h : 0xF0 ≤ a.toNat) : three? a b c = none := by
  unfold three?
  simp only
  rw [if_neg]
  simp only [Bool.and_eq_true, decide_eq_true_eq]
  omega

theorem four?_encoded {n : Nat} (h : 0x10000 ≤ n) (h' : n < 0x110000) :
    four? (UInt8.ofNat (0xF0 + n / 262144)) (UInt8.ofNat (0x80 + n / 4096 % 64))
      (UInt8.ofNat (0x80 + n / 64 % 64)) (UInt8.ofNat (0x80 + n % 64)) = some (Char.ofNat n) := by
  have ha := toNat_ofNat_byte (n := 0xF0 + n / 262144) (by omega)
  have hb := toNat_ofNat_byte (n := 0x80 + n / 4096 % 64) (by omega)
  have hc := toNat_ofNat_byte (n := 0x80 + n / 64 % 64) (by omega)
  have hd := toNat_ofNat_byte (n := 0x80 + n % 64) (by omega)
  have hn : (0xF0 + n / 262144 - 0xF0) * 262144 + (0x80 + n / 4096 % 64 - 0x80) * 4096
      + (0x80 + n / 64 % 64 - 0x80) * 64 + (0x80 + n % 64 - 0x80) = n := by omega
  unfold four?
  simp only [isTail_ofNat (n := n / 4096 % 64) (by omega),
    isTail_ofNat (n := n / 64 % 64) (by omega), isTail_ofNat (n := n % 64) (by omega), ha, hb, hc,
    hd, hn]
  rw [if_pos]
  simp only [Bool.and_true, Bool.and_eq_true, decide_eq_true_eq]
  omega

theorem long?_of_two {a b : UInt8} {c : Char} (h : two? a b = some c) (t : Text) :
    long? a (b :: t) = some ⟨c, [a, b]⟩ := by
  rcases t with _ | ⟨b', _ | ⟨b'', t⟩⟩ <;> simp [long?, h]

theorem long?_of_three {a b b' : UInt8} {c : Char} (ha : 0xE0 ≤ a.toNat)
    (h : three? a b b' = some c) (t : Text) : long? a (b :: b' :: t) = some ⟨c, [a, b, b']⟩ := by
  rcases t with _ | ⟨b'', t⟩ <;> simp [long?, two?_eq_none ha, h]

theorem long?_of_four {a b b' b'' : UInt8} {c : Char} (ha : 0xF0 ≤ a.toNat)
    (h : four? a b b' b'' = some c) (t : Text) :
    long? a (b :: b' :: b'' :: t) = some ⟨c, [a, b, b', b'']⟩ := by
  simp [long?, two?_eq_none (show 0xE0 ≤ a.toNat by omega), three?_eq_none ha, h]

theorem firstPiece_of_long {a : UInt8} {t : Text} {p : Piece} (ha : 0x80 ≤ a.toNat)
    (h : long? a t = some p) : firstPiece a t = p := by
  rw [firstPiece, if_neg (by omega), h]
  rfl

/-- An encoded character is the first piece of whatever text it starts. -/
theorem firstPiece_ofChar (c : Char) (t : Text) :
    ∃ a rest, ofChar c = a :: rest ∧ firstPiece a (rest ++ t) = ⟨c, ofChar c⟩ := by
  have hc := toNat_valid c
  have hof := Char.ofNat_toNat c
  by_cases h1 : c.toNat < 0x80
  · have ha := toNat_ofNat_byte (n := c.toNat) (by omega)
    exact ⟨_, _, by simp only [ofChar, if_pos h1]; rfl, by simp [firstPiece, ofChar, h1, ha]⟩
  by_cases h2 : c.toNat < 0x800
  · have ha := toNat_ofNat_byte (n := 0xC0 + c.toNat / 64) (by omega)
    have hd := two?_encoded (n := c.toNat) (by omega) h2
    have he :
        ofChar c = [UInt8.ofNat (0xC0 + c.toNat / 64), UInt8.ofNat (0x80 + c.toNat % 64)] := by
      simp only [ofChar, if_neg h1, if_pos h2]
    rw [hof] at hd
    exact ⟨_, _, he, he ▸ firstPiece_of_long (by omega) (long?_of_two hd t)⟩
  by_cases h3 : c.toNat < 0x10000
  · have ha := toNat_ofNat_byte (n := 0xE0 + c.toNat / 4096) (by omega)
    have hd := three?_encoded (n := c.toNat) (by omega) h3 (by omega)
    have he : ofChar c = [UInt8.ofNat (0xE0 + c.toNat / 4096),
        UInt8.ofNat (0x80 + c.toNat / 64 % 64), UInt8.ofNat (0x80 + c.toNat % 64)] := by
      simp only [ofChar, if_neg h1, if_neg h2, if_pos h3]
    rw [hof] at hd
    exact ⟨_, _, he, he ▸ firstPiece_of_long (by omega) (long?_of_three (by omega) hd t)⟩
  · have ha := toNat_ofNat_byte (n := 0xF0 + c.toNat / 262144) (by omega)
    have hd := four?_encoded (n := c.toNat) (by omega) (by omega)
    have he : ofChar c = [UInt8.ofNat (0xF0 + c.toNat / 262144),
        UInt8.ofNat (0x80 + c.toNat / 4096 % 64), UInt8.ofNat (0x80 + c.toNat / 64 % 64),
        UInt8.ofNat (0x80 + c.toNat % 64)] := by
      simp only [ofChar, if_neg h1, if_neg h2, if_neg h3]
    rw [hof] at hd
    exact ⟨_, _, he, he ▸ firstPiece_of_long (by omega) (long?_of_four (by omega) hd t)⟩

/-- What a piece before it has taken does not matter to the rest of a text. -/
theorem piecesFrom_append_length (s t : Text) : piecesFrom s.length (s ++ t) = pieces t := by
  induction s with
  | nil => rfl
  | cons a s ih => exact ih

theorem pieces_ofChar_append (c : Char) (t : Text) :
    pieces (ofChar c ++ t) = ⟨c, ofChar c⟩ :: pieces t := by
  obtain ⟨a, rest, he, hp⟩ := firstPiece_ofChar c t
  conv_lhs => rw [he]
  rw [List.cons_append, pieces, piecesFrom]
  simp only [hp]
  rw [he]
  exact congrArg _ (piecesFrom_append_length rest t)

theorem chars_ofChar_append (c : Char) (t : Text) : chars (ofChar c ++ t) = c :: chars t := by
  simp [chars, pieces_ofChar_append]

/-- Decoding reads encoded characters back and goes on after them. -/
theorem chars_ofChars_append (cs : List Char) (t : Text) :
    chars (ofChars cs ++ t) = cs ++ chars t := by
  induction cs with
  | nil => rfl
  | cons c cs ih =>
    rw [ofChars, List.flatMap_cons, List.append_assoc, chars_ofChar_append]
    exact congrArg _ ih

theorem chars_ofChars (cs : List Char) : chars (ofChars cs) = cs := by
  have h := chars_ofChars_append cs []
  simpa [chars, pieces, piecesFrom] using h

theorem ofChars_inj {cs ds : List Char} : ofChars cs = ofChars ds ↔ cs = ds := by
  refine ⟨fun h => ?_, congrArg ofChars⟩
  rw [← chars_ofChars cs, h, chars_ofChars]

theorem ofChars_append (cs ds : List Char) : ofChars (cs ++ ds) = ofChars cs ++ ofChars ds :=
  List.flatMap_append

/-! ## Encoding what was decoded -/

theorem ofChar_of_two {a b : UInt8} {c : Char} (h : two? a b = some c) : ofChar c = [a, b] := by
  unfold two? at h
  split at h
  · rename_i hab
    simp only [isTail, Bool.and_eq_true, decide_eq_true_eq] at hab
    obtain rfl := Option.some.inj h
    have hn := toNat_ofNat_of_valid (n := (a.toNat - 0xC0) * 64 + (b.toNat - 0x80))
      (by simp only [Nat.isValidChar]; omega)
    unfold ofChar
    simp only [hn]
    rw [if_neg (by omega), if_pos (by omega), ofNat_eq_byte (b := a) (by omega),
      ofNat_eq_byte (b := b) (by omega)]
  · cases h

theorem ofChar_of_three {a b b' : UInt8} {c : Char} (h : three? a b b' = some c) :
    ofChar c = [a, b, b'] := by
  unfold three? at h
  simp only at h
  split at h
  · rename_i hab
    simp only [isTail, Bool.and_eq_true, Bool.not_eq_true', Bool.and_eq_false_iff,
      decide_eq_true_eq, decide_eq_false_iff_not] at hab
    obtain rfl := Option.some.inj h
    have hn := toNat_ofNat_of_valid
      (n := (a.toNat - 0xE0) * 4096 + (b.toNat - 0x80) * 64 + (b'.toNat - 0x80))
      (by simp only [Nat.isValidChar]; omega)
    unfold ofChar
    simp only [hn]
    rw [if_neg (by omega), if_neg (by omega), if_pos (by omega), ofNat_eq_byte (b := a) (by omega),
      ofNat_eq_byte (b := b) (by omega), ofNat_eq_byte (b := b') (by omega)]
  · cases h

theorem ofChar_of_four {a b b' b'' : UInt8} {c : Char} (h : four? a b b' b'' = some c) :
    ofChar c = [a, b, b', b''] := by
  unfold four? at h
  simp only at h
  split at h
  · rename_i hab
    simp only [isTail, Bool.and_eq_true, decide_eq_true_eq] at hab
    obtain rfl := Option.some.inj h
    have hn := toNat_ofNat_of_valid
      (n := (a.toNat - 0xF0) * 262144 + (b.toNat - 0x80) * 4096 + (b'.toNat - 0x80) * 64
        + (b''.toNat - 0x80))
      (by simp only [Nat.isValidChar]; omega)
    unfold ofChar
    simp only [hn]
    rw [if_neg (by omega), if_neg (by omega), if_neg (by omega), ofNat_eq_byte (b := a) (by omega),
      ofNat_eq_byte (b := b) (by omega), ofNat_eq_byte (b := b') (by omega),
      ofNat_eq_byte (b := b'') (by omega)]
  · cases h

/-- A piece of more than one byte is the encoding of its character, at the start of the text. -/
theorem long?_spec {a : UInt8} {t : Text} {p : Piece} (h : long? a t = some p) :
    p.bytes = ofChar p.char ∧ ∃ front rest, p.bytes = a :: front ∧ t = front ++ rest := by
  rcases t with _ | ⟨b, _ | ⟨b', _ | ⟨b'', t⟩⟩⟩
  all_goals
    simp only [long?, Option.orElse_eq_orElse, Option.orElse_eq_or, Option.or_eq_some_iff,
      Option.map_eq_some_iff, reduceCtorEq] at h
  · obtain ⟨c, hc, rfl⟩ := h
    exact ⟨(ofChar_of_two hc).symm, [b], [], rfl, rfl⟩
  · rcases h with ⟨c, hc, rfl⟩ | ⟨-, c, hc, rfl⟩
    · exact ⟨(ofChar_of_two hc).symm, [b], [b'], rfl, rfl⟩
    · exact ⟨(ofChar_of_three hc).symm, [b, b'], [], rfl, rfl⟩
  · rcases h with ⟨c, hc, rfl⟩ | ⟨-, ⟨c, hc, rfl⟩ | ⟨-, c, hc, rfl⟩⟩
    · exact ⟨(ofChar_of_two hc).symm, [b], b' :: b'' :: t, rfl, rfl⟩
    · exact ⟨(ofChar_of_three hc).symm, [b, b'], b'' :: t, rfl, rfl⟩
    · exact ⟨(ofChar_of_four hc).symm, [b, b', b''], t, rfl, rfl⟩

/-- A piece that a text can have: the encoding of its character, or a byte that is no character. -/
def Piece.WellFormed (p : Piece) : Prop :=
  p.bytes = ofChar p.char ∨ ∃ b, p = ⟨replacement, [b]⟩

theorem firstPiece_spec (a : UInt8) (t : Text) :
    (firstPiece a t).WellFormed ∧
      ∃ front rest, (firstPiece a t).bytes = a :: front ∧ t = front ++ rest := by
  unfold firstPiece
  split
  · rename_i ha
    have hn := toNat_ofNat_of_valid (n := a.toNat) (by simp only [Nat.isValidChar]; omega)
    refine ⟨Or.inl ?_, [], t, rfl, rfl⟩
    simp only [ofChar, hn, if_pos ha, UInt8.ofNat_toNat]
  · cases h : long? a t with
    | none => exact ⟨Or.inr ⟨a, rfl⟩, [], t, rfl, rfl⟩
    | some p =>
      obtain ⟨hb, hrest⟩ := long?_spec h
      exact ⟨Or.inl hb, hrest⟩

theorem ofPieces_piecesFrom (k : Nat) (t : Text) : ofPieces (piecesFrom k t) = t.drop k := by
  induction t generalizing k with
  | nil => cases k <;> rfl
  | cons a t ih =>
    cases k with
    | succ k => exact ih k
    | zero =>
      obtain ⟨-, front, rest, hb, ht⟩ := firstPiece_spec a t
      rw [piecesFrom, ofPieces, List.flatMap_cons, ← ofPieces, ih, hb]
      simp [ht]

/-- The pieces of a text hold its bytes in order. -/
theorem ofPieces_pieces (t : Text) : ofPieces (pieces t) = t := ofPieces_piecesFrom 0 t

theorem wellFormed_of_mem_piecesFrom {p : Piece} {k : Nat} {t : Text} (h : p ∈ piecesFrom k t) :
    p.WellFormed := by
  induction t generalizing k with
  | nil => cases k <;> simp [piecesFrom] at h
  | cons a t ih =>
    cases k with
    | succ k => exact ih h
    | zero =>
      rw [piecesFrom] at h
      rcases List.mem_cons.mp h with rfl | h
      · exact (firstPiece_spec a t).1
      · exact ih h

/-- Every piece of a text is well formed. -/
theorem wellFormed_of_mem_pieces {p : Piece} {t : Text} (h : p ∈ pieces t) : p.WellFormed :=
  wellFormed_of_mem_piecesFrom h

/-! ## Texts one after the other -/

/-- No character goes on into a byte that starts another. -/
theorem long?_append_of_start {a : UInt8} (ha : isTail a = false) (b : UInt8) (s t : Text) :
    long? b (s ++ a :: t) = long? b s := by
  match s with
  | [] =>
    match t with
    | [] => simp [long?, two?, ha]
    | [c] => simp [long?, two?, three?, ha]
    | c :: d :: t => simp [long?, two?, three?, four?, ha]
  | [c] =>
    match t with
    | [] => simp [long?, three?, ha]
    | d :: t => simp [long?, three?, four?, ha]
  | [c, d] => simp [long?, four?, ha]
  | c :: d :: e :: s => rfl

theorem firstPiece_append_of_start {a : UInt8} (ha : isTail a = false) (b : UInt8) (s t : Text) :
    firstPiece b (s ++ a :: t) = firstPiece b s := by
  rw [firstPiece, firstPiece, long?_append_of_start ha]

theorem piecesFrom_append_of_start {a : UInt8} (ha : isTail a = false) (t : Text) {k : Nat}
    {s : Text} (hk : k ≤ s.length) :
    piecesFrom k (s ++ a :: t) = piecesFrom k s ++ pieces (a :: t) := by
  induction s generalizing k with
  | nil =>
    obtain rfl := Nat.le_zero.mp hk
    rfl
  | cons b s ih =>
    cases k with
    | succ k => exact ih (Nat.le_of_succ_le_succ hk)
    | zero =>
      obtain ⟨-, front, rest, hbytes, hs⟩ := firstPiece_spec b s
      have hlength : (firstPiece b s).bytes.length - 1 ≤ s.length := by
        rw [hbytes, hs]
        simp
      rw [List.cons_append, piecesFrom, piecesFrom]
      simp only [firstPiece_append_of_start ha]
      rw [ih hlength]
      rfl

theorem exists_start_ofChar (c : Char) :
    ∃ a rest, ofChar c = a :: rest ∧ isTail a = false := by
  have hstart : ∀ n, n < 256 → n < 0x80 ∨ 0xC0 ≤ n → isTail (UInt8.ofNat n) = false := by
    intro n hbyte hn
    simp only [isTail, toNat_ofNat_byte hbyte, Bool.and_eq_false_iff, decide_eq_false_iff_not]
    omega
  have hc := toNat_valid c
  simp only [ofChar]
  split_ifs with h1 h2 h3
  · exact ⟨_, _, rfl, hstart _ (by omega) (by omega)⟩
  · exact ⟨_, _, rfl, hstart _ (by omega) (by omega)⟩
  · exact ⟨_, _, rfl, hstart _ (by omega) (by omega)⟩
  · exact ⟨_, _, rfl, hstart _ (by omega) (by omega)⟩

/-- Wherever a text ends, a character after it is read as itself. -/
theorem chars_append_ofChar (c : Char) (s t : Text) :
    chars (s ++ ofChar c ++ t) = chars s ++ c :: chars t := by
  obtain ⟨a, rest, hc, ha⟩ := exists_start_ofChar c
  have hpieces := piecesFrom_append_of_start ha (rest ++ t) (Nat.zero_le s.length)
  have hrest := chars_ofChar_append c t
  rw [hc, List.cons_append] at hrest
  rw [hc, List.append_assoc, List.cons_append, chars, pieces, hpieces, List.map_append, ← hrest]
  rfl

/-! ## Where a text ends -/

/-- Bytes of one sort in front of a byte of another are recognised. -/
theorem append_cons_inj {p : UInt8 → Bool} {x y s t : Text} {a b : UInt8} (hx : ∀ c ∈ x, p c)
    (hy : ∀ c ∈ y, p c) (ha : p a = false) (hb : p b = false) (h : x ++ a :: s = y ++ b :: t) :
    x = y ∧ a :: s = b :: t := by
  have hfront := congrArg (List.takeWhile p) h
  rw [List.takeWhile_append_of_pos hx, List.takeWhile_append_of_pos hy] at hfront
  simp only [List.takeWhile_cons, ha, hb, Bool.false_eq_true, if_false, List.append_nil] at hfront
  subst hfront
  exact ⟨rfl, List.append_cancel_left h⟩

end Denotation.Text

namespace Denotation

/-- A run goes on up to a character that stops it. -/
theorem takeWhile_of_run {p : Char → Bool} {cs rest : List Char} (hcs : ∀ c ∈ cs, p c = true)
    (hr : ∀ c ∈ rest.head?, p c = false) :
    (cs ++ rest).takeWhile p = cs ∧ (cs ++ rest).dropWhile p = rest := by
  rw [List.takeWhile_append_of_pos hcs, List.dropWhile_append_of_pos hcs]
  cases rest with
  | nil => simp
  | cons d rest => simp [hr d rfl]

/-- Characters start with a run of those that are wanted, which is as long as can be. -/
theorem exists_run (p : Char → Bool) (cs : List Char) :
    ∃ run rest, cs = run ++ rest ∧ cs.takeWhile p = run ∧ cs.dropWhile p = rest ∧
      (∀ c ∈ run, p c = true) ∧ ∀ c ∈ rest.head?, p c = false := by
  refine ⟨_, _, List.takeWhile_append_dropWhile.symm, rfl, rfl, ?_, fun c hc => ?_⟩
  · exact List.all_eq_true.mp List.all_takeWhile
  · have hhead := List.head?_dropWhile_not p cs
    rw [Option.mem_def.mp hc] at hhead
    exact hhead

end Denotation
