import Denotation.Proofs.Characters
import Denotation.Text.Decimal

/-!
# Decimal integers read back

What is written for a signed 64-bit integer is read as that integer, at both ends of the range. A
natural number is written in ASCII digits alone, and a negative one after a minus sign.
-/

namespace Denotation.Text

/-! ## ASCII texts -/

/-- The characters that bytes below 128 encode. -/
def asciiChars (t : Text) : List Char := t.map fun b => Char.ofNat b.toNat

theorem toNat_asciiChar {b : UInt8} (h : b.toNat < 0x80) : (Char.ofNat b.toNat).toNat = b.toNat :=
  toNat_ofNat_of_valid (by simp only [Nat.isValidChar]; omega)

theorem ofChar_asciiChar {b : UInt8} (h : b.toNat < 0x80) : ofChar (Char.ofNat b.toNat) = [b] := by
  simp [ofChar, toNat_asciiChar h, h]

theorem ofChars_asciiChars {t : Text} (h : ∀ b ∈ t, b.toNat < 0x80) :
    ofChars (asciiChars t) = t := by
  induction t with
  | nil => rfl
  | cons b t ih =>
    have hb := ofChar_asciiChar (h b List.mem_cons_self)
    have ht := ih fun b' hb' => h b' (List.mem_cons_of_mem b hb')
    rw [asciiChars, List.map_cons, ofChars, List.flatMap_cons, hb]
    exact congrArg _ ht

/-! ## Digits -/

theorem digit?_ofNat {d : Nat} (h : d < 10) : digit? (UInt8.ofNat (0x30 + d)) = some d := by
  have hd := toNat_ofNat_byte (n := 0x30 + d) (by omega)
  simp only [digit?, hd]
  rw [if_pos (by simp only [Bool.and_eq_true, decide_eq_true_eq]; omega)]
  congr 1
  omega

theorem digits_ofNat (n : Nat) : ∀ b ∈ ofNat n, 0x30 ≤ b.toNat ∧ b.toNat ≤ 0x39 := by
  induction n using Nat.strong_induction_on with
  | _ n ih =>
    intro b hb
    rw [ofNat] at hb
    split at hb
    · rw [List.mem_singleton.mp hb, toNat_ofNat_byte (by omega)]
      omega
    · rcases List.mem_append.mp hb with hb | hb
      · exact ih (n / 10) (by omega) b hb
      · rw [List.mem_singleton.mp hb, toNat_ofNat_byte (by omega)]
        omega

theorem ofNat_ne_nil (n : Nat) : ofNat n ≠ [] := by
  rw [ofNat]
  split <;> simp

theorem natFrom?_append (m : Nat) (s t : Text) :
    natFrom? m (s ++ t) = (natFrom? m s).bind fun k => natFrom? k t := by
  induction s generalizing m with
  | nil => rfl
  | cons b s ih =>
    rw [List.cons_append, natFrom?, natFrom?]
    cases digit? b with
    | none => rfl
    | some d => exact ih _

theorem natFrom?_ofNat (n : Nat) : natFrom? 0 (ofNat n) = some n := by
  induction n using Nat.strong_induction_on with
  | _ n ih =>
    rw [ofNat]
    split
    · rename_i hn
      simp only [natFrom?, digit?_ofNat hn, Nat.mul_zero, Nat.zero_add]
    · rw [natFrom?_append, ih (n / 10) (by omega), Option.bind_some, natFrom?,
        digit?_ofNat (Nat.mod_lt n (by decide))]
      simp only [natFrom?]
      congr 1
      omega

theorem toNat?_ofNat (n : Nat) : toNat? (ofNat n) = some n := by
  rw [toNat?, if_neg (by simp [ofNat_ne_nil]), natFrom?_ofNat]

/-- A text that starts with neither sign is read as a natural number. -/
theorem toInt?_of_digits {t : Text} (h : ∀ b ∈ t, 0x30 ≤ b.toNat ∧ b.toNat ≤ 0x39) :
    toInt? t = (toNat? t).map Int.ofNat := by
  unfold toInt?
  split
  · exact absurd (h 0x2B List.mem_cons_self) (by decide)
  · exact absurd (h 0x2D List.mem_cons_self) (by decide)
  · rfl

theorem toInt?_ofInt (i : Int) : toInt? (ofInt i) = some i := by
  cases i with
  | ofNat n => rw [ofInt, toInt?_of_digits (digits_ofNat n), toNat?_ofNat]; rfl
  | negSucc n => rw [ofInt, toInt?, toNat?_ofNat]; rfl

/-- A signed 64-bit integer reads back as itself. -/
theorem toInt64?_ofInt64 (n : Int64) : toInt64? (ofInt64 n) = some n := by
  rw [toInt64?, ofInt64, toInt?_ofInt, Option.bind_some, word?,
    if_pos ⟨n.minValue_le_toInt, n.toInt_le⟩, Int64.ofInt_toInt]

/-- The bytes of a decimal integer are digits, or a minus sign and digits. -/
theorem bytes_ofInt {i : Int} {b : UInt8} (h : b ∈ ofInt i) :
    (0x30 ≤ b.toNat ∧ b.toNat ≤ 0x39) ∨ b = 0x2D := by
  cases i with
  | ofNat k => exact Or.inl (digits_ofNat k b h)
  | negSucc k =>
    rcases List.mem_cons.mp h with h | h
    · exact Or.inr h
    · exact Or.inl (digits_ofNat (k + 1) b h)

/-- The bytes of a decimal integer that is not negative are digits. -/
theorem digits_ofInt64 {n : Int64} (hn : 0 ≤ n) :
    ∀ b ∈ ofInt64 n, 0x30 ≤ b.toNat ∧ b.toNat ≤ 0x39 := by
  have hint : 0 ≤ n.toInt := Int64.le_iff_toInt_le.mp hn
  obtain ⟨k, hk⟩ := Int.eq_ofNat_of_zero_le hint
  rw [ofInt64, hk]
  exact digits_ofNat k

theorem ofInt64_ne_nil (n : Int64) : ofInt64 n ≠ [] := by
  unfold ofInt64
  cases n.toInt with
  | ofNat k => exact ofNat_ne_nil k
  | negSucc k => simp [ofInt]

/-- The bytes that integers are written with. -/
def numerals : Text := "-0123456789"

theorem mem_numerals {b : UInt8} (h : (0x30 ≤ b.toNat ∧ b.toNat ≤ 0x39) ∨ b = 0x2D) :
    b ∈ numerals := by
  have hd : ∀ n, 0x30 ≤ n → n < 0x3A → UInt8.ofNat n ∈ numerals := by decide
  rcases h with h | rfl
  · have hb := hd b.toNat h.1 (by omega)
    rwa [UInt8.ofNat_toNat] at hb
  · decide

theorem ofInt_subset (i : Int) : ∀ b ∈ ofInt i, b ∈ numerals :=
  fun _ hb => mem_numerals (bytes_ofInt hb)

/-- An integer in front of a byte that no integer holds is recognised. -/
theorem ofInt_append_inj {i j : Int} {a b : UInt8} {s t : Text} (ha : a ∉ numerals)
    (hb : b ∉ numerals) (h : ofInt i ++ a :: s = ofInt j ++ b :: t) : i = j ∧ a :: s = b :: t := by
  have hsub (i : Int) : ∀ c ∈ ofInt i, decide (c ∈ numerals) = true :=
    fun c hc => decide_eq_true (ofInt_subset i c hc)
  obtain ⟨hij, hrest⟩ :=
    append_cons_inj (hsub i) (hsub j) (decide_eq_false ha) (decide_eq_false hb) h
  have hi := toInt?_ofInt i
  rw [hij, toInt?_ofInt j] at hi
  exact ⟨(Option.some.inj hi).symm, hrest⟩

end Denotation.Text
