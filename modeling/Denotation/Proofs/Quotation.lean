import Denotation.Machine.Reader
import Denotation.Proofs.Characters

/-!
# Quoted text reads back

A quoted text is made of encoded characters between two quotes, whatever bytes the text itself
holds. The scanner of quoted text finds the second quote, and unquoting what stands before it gives
the bytes back. Both go over the escapes of the pieces one by one: `Escaped` says what the two need
to know about one of them.
-/

namespace Denotation.Text

/-! ## Hexadecimal digits -/

/-- The last `width` hexadecimal digits of `n`, as characters. -/
def hexChars : Nat → Nat → List Char
  | 0, _ => []
  | width + 1, n => hexChars width (n / 16) ++ [Char.ofNat (hexDigit (n % 16)).toNat]

theorem ofChars_hexChars (width n : Nat) : ofChars (hexChars width n) = hex width n := by
  induction width generalizing n with
  | zero => rfl
  | succ width ih =>
    have hd : ∀ m < 16, ofChar (Char.ofNat (hexDigit m).toNat) = [hexDigit m] := by decide
    rw [hexChars, hex, ofChars_append, ih, ← hd _ (Nat.mod_lt n (by decide))]
    simp [ofChars]

theorem length_hexChars (width n : Nat) : (hexChars width n).length = width := by
  induction width generalizing n with
  | zero => rfl
  | succ width ih => simp [hexChars, ih]

/-- Hexadecimal digits are none of the characters that end or continue a quoted text. -/
theorem ne_of_mem_hexChars {width n : Nat} {c : Char} (h : c ∈ hexChars width n) :
    c ≠ '"' ∧ c ≠ '\\' := by
  induction width generalizing n with
  | zero => simp [hexChars] at h
  | succ width ih =>
    have hd : ∀ m < 16, Char.ofNat (hexDigit m).toNat ≠ '"' ∧
        Char.ofNat (hexDigit m).toNat ≠ '\\' := by decide
    rcases List.mem_append.mp h with h | h
    · exact ih h
    · rw [List.mem_singleton.mp h]
      exact hd _ (Nat.mod_lt n (by decide))

/-- Reading hexadecimal digits goes on after them with their value. -/
theorem numeral?_hexChars (width more n acc : Nat) (rest : List Char) :
    numeral? 16 (width + more) acc (hexChars width n ++ rest)
      = numeral? 16 more (16 ^ width * acc + n % 16 ^ width) rest := by
  induction width generalizing more n rest with
  | zero => simp [hexChars, Nat.mod_one]
  | succ width ih =>
    have hd : ∀ m < 16, hexValue? (Char.ofNat (hexDigit m).toNat) = some m := by decide
    have hlt : n % 16 < 16 := Nat.mod_lt n (by decide)
    have hn : 16 * (16 ^ width * acc + n / 16 % 16 ^ width) + n % 16
        = 16 ^ (width + 1) * acc + n % 16 ^ (width + 1) := by
      rw [pow_succ', Nat.mod_mul]
      ring
    rw [hexChars, List.append_assoc, show width + 1 + more = width + (more + 1) by omega, ih]
    simp only [List.cons_append, List.nil_append, numeral?, hd _ hlt, if_pos hlt, hn]

/-- The value of exactly as many hexadecimal digits as a number needs. -/
theorem numeral?_hexChars_of_lt (width : Nat) {n : Nat} (h : n < 16 ^ width) (rest : List Char) :
    numeral? 16 width 0 (hexChars width n ++ rest) = some n := by
  have hr := numeral?_hexChars width 0 n 0 rest
  rw [Nat.mod_eq_of_lt h] at hr
  simpa [numeral?] using hr

/-! ## Escapes -/

/-- The characters `cs` stand for the bytes `t` between double quotes: a character for itself, or an
escape that no quote and no backslash follows. -/
inductive Escaped : List Char → Text → Prop where
  | plain {c : Char} (hq : c ≠ '"') (hb : c ≠ '\\') (hn : c ≠ '\n') : Escaped [c] (ofChar c)
  | escape {c : Char} {cs : List Char} {t : Text}
      (he : ∀ rest, escape? (c :: (cs ++ rest)) = some (t, cs.length + 1))
      (hcs : ∀ d ∈ cs, d ≠ '"' ∧ d ≠ '\\') : Escaped ('\\' :: c :: cs) t

/-- The escape `\x`. -/
theorem Escaped.byte {n : Nat} (h : n < 256) :
    Escaped ('\\' :: 'x' :: hexChars 2 n) [UInt8.ofNat n] := by
  refine .escape (fun rest => ?_) (fun d hd => ne_of_mem_hexChars hd)
  have hv := numeral?_hexChars_of_lt 2 (n := n) (by omega) rest
  simp [escape?, named?, hv, length_hexChars]

theorem scalar?_toNat (c : Char) : scalar? c.toNat = some (ofChar c) := by
  have h : c.toNat.isValidChar := c.valid
  rw [scalar?, if_pos h, Char.ofNat_toNat]

/-- The escapes `\u` and `\U`. -/
theorem Escaped.short {c : Char} (h : c.toNat < 0x10000) :
    Escaped ('\\' :: 'u' :: hexChars 4 c.toNat) (ofChar c) := by
  refine .escape (fun rest => ?_) (fun d hd => ne_of_mem_hexChars hd)
  have hv := numeral?_hexChars_of_lt 4 (n := c.toNat) (by omega) rest
  simp [escape?, named?, hv, length_hexChars, scalar?_toNat]

theorem Escaped.long (c : Char) : Escaped ('\\' :: 'U' :: hexChars 8 c.toNat) (ofChar c) := by
  refine .escape (fun rest => ?_) (fun d hd => ne_of_mem_hexChars hd)
  have hv := numeral?_hexChars_of_lt 8 (n := c.toNat)
    (by have := toNat_valid c; omega) rest
  simp [escape?, named?, hv, length_hexChars, scalar?_toNat]

theorem Escaped.named {c : Char} {b : UInt8} (h : named? c = some b) : Escaped ['\\', c] [b] :=
  .escape (fun rest => by simp [escape?, h]) (by simp)

theorem ofChars_cons (c : Char) (cs : List Char) : ofChars (c :: cs) = ofChar c ++ ofChars cs :=
  List.flatMap_cons

/-- The escape of a character that is not printable is an escape of its encoding. -/
theorem escapeChar_spec (c : Char) : ∃ cs, escapeChar c = ofChars cs ∧ Escaped cs (ofChar c) := by
  unfold escapeChar
  split
  · rename_i b hb
    unfold controlName? at hb
    split at hb <;> cases hb
    all_goals
      rename_i hn
      rw [← Char.ofNat_toNat c, hn]
    · exact ⟨['\\', 'a'], by decide, .named rfl⟩
    · exact ⟨['\\', 'b'], by decide, .named rfl⟩
    · exact ⟨['\\', 't'], by decide, .named rfl⟩
    · exact ⟨['\\', 'n'], by decide, .named rfl⟩
    · exact ⟨['\\', 'v'], by decide, .named rfl⟩
    · exact ⟨['\\', 'f'], by decide, .named rfl⟩
    · exact ⟨['\\', 'r'], by decide, .named rfl⟩
  · dsimp only
    split
    · rename_i hn
      simp only [Bool.or_eq_true, decide_eq_true_eq, beq_iff_eq] at hn
      refine ⟨'\\' :: 'x' :: hexChars 2 c.toNat, ?_, ?_⟩
      · rw [ofChars_cons, ofChars_cons, ofChars_hexChars]
        rfl
      · have hc : ofChar c = [UInt8.ofNat c.toNat] := by
          rw [ofChar, if_pos (by omega)]
        exact hc ▸ .byte (by omega)
    · split
      · rename_i hn
        refine ⟨'\\' :: 'u' :: hexChars 4 c.toNat, ?_, .short hn⟩
        rw [ofChars_cons, ofChars_cons, ofChars_hexChars]
        rfl
      · refine ⟨'\\' :: 'U' :: hexChars 8 c.toNat, ?_, .long c⟩
        rw [ofChars_cons, ofChars_cons, ofChars_hexChars]
        rfl

theorem Piece.isInvalid_of_bytes {p : Piece} (h : p.bytes = ofChar p.char) :
    p.isInvalid = false := by
  unfold isInvalid
  by_cases hc : p.char = replacement
  · rw [h, hc]
    decide
  · simp [hc]

/-- A piece between double quotes is an escape of its bytes. -/
theorem escapePiece_spec {p : Piece} (h : p.WellFormed) :
    ∃ cs, escapePiece '"' p = ofChars cs ∧ Escaped cs p.bytes := by
  rcases h with h | ⟨b, rfl⟩
  · rw [escapePiece, Piece.isInvalid_of_bytes h, if_neg (by decide)]
    split
    · rename_i hc
      simp only [Bool.or_eq_true, beq_iff_eq] at hc
      rw [h]
      rcases hc with hc | hc <;> rw [hc]
      · exact ⟨['\\', '"'], by decide, .named rfl⟩
      · exact ⟨['\\', '\\'], by decide, .named rfl⟩
    · rename_i hc
      simp only [Bool.or_eq_true, beq_iff_eq, not_or] at hc
      rw [h]
      split
      · rename_i hp
        have hn : p.char ≠ '\n' := by
          intro hn
          rw [hn] at hp
          exact absurd hp (by decide)
        exact ⟨[p.char], by simp [ofChars], .plain hc.1 hc.2 hn⟩
      · exact escapeChar_spec p.char
  · have hb := b.toNat_lt
    refine ⟨'\\' :: 'x' :: hexChars 2 b.toNat, ?_, ?_⟩
    · rw [ofChars_cons, ofChars_cons, ofChars_hexChars]
      rfl
    · have hr := Escaped.byte (n := b.toNat) (by omega)
      rwa [UInt8.ofNat_toNat] at hr

/-! ## Scanning and unquoting -/

theorem stringLength?_plain {cs : List Char} (h : ∀ d ∈ cs, d ≠ '"' ∧ d ≠ '\\')
    (rest : List Char) (hr : rest ≠ []) :
    stringLength? (cs ++ rest) = (stringLength? rest).map (· + cs.length) := by
  induction cs with
  | nil => simp
  | cons c cs ih =>
    obtain ⟨d, ds, hd⟩ : ∃ d ds, cs ++ rest = d :: ds := by
      cases hcs : cs ++ rest with
      | nil => exact absurd (List.append_eq_nil_iff.mp hcs).2 hr
      | cons d ds => exact ⟨d, ds, rfl⟩
    have hc := h c List.mem_cons_self
    rw [List.cons_append, hd, stringLength?, ← hd, ih fun d hd => h d (List.mem_cons_of_mem c hd)]
    simp [hc.1, hc.2, Option.map_map, Function.comp_def, Nat.add_assoc]

/-- The scanner of quoted text passes over an escape. -/
theorem Escaped.scans {cs : List Char} {t : Text} (h : Escaped cs t) (rest : List Char)
    (hr : rest ≠ []) :
    stringLength? (cs ++ rest) = (stringLength? rest).map (· + cs.length) := by
  cases h with
  | plain hq hb hn => exact stringLength?_plain (by simp [hq, hb]) rest hr
  | escape he hcs =>
    rw [List.cons_append, List.cons_append, stringLength?,
      stringLength?_plain hcs rest hr]
    simp [Option.map_map, Function.comp_def, Nat.add_assoc]

theorem unquoteFrom_length_append (cs rest : List Char) :
    unquoteFrom cs.length (cs ++ rest) = unquoteFrom 0 rest := by
  induction cs with
  | nil => rfl
  | cons c cs ih => exact ih

/-- Unquoting reads an escape as the bytes it stands for and goes on after it. -/
theorem Escaped.unquotes {cs : List Char} {t : Text} (h : Escaped cs t) (rest : List Char) :
    unquoteFrom 0 (cs ++ rest) = (unquoteFrom 0 rest).map (t ++ ·) := by
  cases h with
  | plain hq hb hn => simp [unquoteFrom, hq, hb, hn]
  | escape he hcs =>
    simp only [List.cons_append, unquoteFrom, beq_self_eq_true, if_true, he]
    rw [unquoteFrom_length_append]

/-- The pieces of a text between double quotes: the scanner finds the quote that ends them, and they
stand for the bytes of the text. -/
theorem escapePieces_spec (ps : List Piece) (h : ∀ p ∈ ps, p.WellFormed) :
    ∃ cs, ps.flatMap (escapePiece '"') = ofChars cs ∧
      (∀ rest, stringLength? (cs ++ '"' :: rest) = some cs.length) ∧
      unquote? cs = some (ofPieces ps) := by
  induction ps with
  | nil =>
    refine ⟨[], rfl, fun rest => ?_, rfl⟩
    cases rest <;> rfl
  | cons p ps ih =>
    obtain ⟨cs, he, hcs⟩ := escapePiece_spec (h p List.mem_cons_self)
    obtain ⟨ds, hds, hlen, hun⟩ := ih fun q hq => h q (List.mem_cons_of_mem p hq)
    refine ⟨cs ++ ds, ?_, fun rest => ?_, ?_⟩
    · rw [List.flatMap_cons, he, hds, ofChars_append]
    · rw [List.append_assoc, hcs.scans _ (by simp), hlen]
      simp [Nat.add_comm]
    · rw [unquote?] at hun ⊢
      rw [hcs.unquotes, hun]
      simp [ofPieces]

/-- Quoted text reads back, whatever bytes it holds. -/
theorem quote_spec (t : Text) :
    ∃ cs, quote t = ofChars ('"' :: (cs ++ ['"'])) ∧
      (∀ rest, stringLength? (cs ++ '"' :: rest) = some cs.length) ∧
      unquote? cs = some t := by
  obtain ⟨cs, he, hlen, hun⟩ := escapePieces_spec t.pieces fun p hp => wellFormed_of_mem_pieces hp
  refine ⟨cs, ?_, hlen, ?_⟩
  · rw [quote, he, ofChars_cons, ofChars_append]
    rfl
  · rw [hun, ofPieces_pieces]

/-- A quoted text in front of a rest is recognised. -/
theorem quote_append_inj {x y s t : Text} (h : x.quote ++ s = y.quote ++ t) : x = y ∧ s = t := by
  obtain ⟨cs, hx, hcs, hux⟩ := quote_spec x
  obtain ⟨ds, hy, hds, huy⟩ := quote_spec y
  have hchars := congrArg chars h
  rw [hx, hy, chars_ofChars_append, chars_ofChars_append] at hchars
  simp only [List.cons_append, List.append_assoc, List.nil_append, List.cons.injEq, true_and]
    at hchars
  -- the scanner finds the end of both at the same place
  have hlen : cs.length = ds.length := by
    have hscan := congrArg stringLength? hchars
    rw [hcs, hds] at hscan
    exact Option.some.inj hscan
  obtain ⟨rfl, -⟩ := List.append_inj hchars hlen
  obtain rfl : x = y := by
    rw [hux] at huy
    exact Option.some.inj huy
  exact ⟨rfl, List.append_cancel_left h⟩

end Denotation.Text
