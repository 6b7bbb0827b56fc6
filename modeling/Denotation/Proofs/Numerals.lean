import Mathlib.Data.Nat.Digits.Defs
import Denotation.Proofs.Decimals

/-!
# What decimal integers mean

Which texts are integers in decimal, and which integers they are, in terms of the digits and their
places. Reading an integer succeeds on exactly these texts, and as a signed 64-bit integer on those
that fit.
-/

namespace Denotation.Text

/-- The ASCII digits of the given values. -/
def digitBytes (ds : List Nat) : Text := ds.map fun d => UInt8.ofNat (0x30 + d)

/-- The value of decimal digits, the first of which counts most. -/
def decimalValue (ds : List Nat) : Nat := Nat.ofDigits 10 ds.reverse

/-- The text is a natural number in decimal: at least one ASCII digit. -/
def IsDecimal (t : Text) (n : Nat) : Prop :=
  ∃ ds : List Nat, ds ≠ [] ∧ (∀ d ∈ ds, d < 10) ∧ t = digitBytes ds ∧ n = decimalValue ds

/-- The text is an integer in decimal: an optional sign and at least one ASCII digit. -/
inductive IsInteger : Text → Int → Prop where
  | unsigned {t : Text} {n : Nat} (h : IsDecimal t n) : IsInteger t n
  | plus {t : Text} {n : Nat} (h : IsDecimal t n) : IsInteger (0x2B :: t) n
  | minus {t : Text} {n : Nat} (h : IsDecimal t n) : IsInteger (0x2D :: t) (-n)

variable {t : Text} {n m : Nat} {ds : List Nat}

theorem decimalValue_cons (d : Nat) (ds : List Nat) :
    decimalValue (d :: ds) = 10 ^ ds.length * d + decimalValue ds := by
  rw [decimalValue, List.reverse_cons, Nat.ofDigits_append, Nat.ofDigits_singleton,
    List.length_reverse, Nat.add_comm]
  rfl

theorem digit?_eq_some_iff {b : UInt8} {d : Nat} :
    digit? b = some d ↔ d < 10 ∧ b = UInt8.ofNat (0x30 + d) := by
  constructor
  · intro h
    simp only [digit?, Option.ite_none_right_eq_some, Bool.and_eq_true, decide_eq_true_eq,
      Option.some.injEq] at h
    refine ⟨by omega, (ofNat_eq_byte ?_).symm⟩
    omega
  · rintro ⟨hd, rfl⟩
    exact digit?_ofNat hd

/-- Digits after others move those to higher places. -/
theorem natFrom?_eq_some_iff :
    natFrom? m t = some n ↔ ∃ ds : List Nat, (∀ d ∈ ds, d < 10) ∧ t = digitBytes ds ∧
      n = 10 ^ ds.length * m + decimalValue ds := by
  induction t generalizing m with
  | nil =>
    constructor
    · intro h
      obtain rfl := Option.some.inj h
      exact ⟨[], by simp, rfl, by simp [decimalValue]⟩
    · rintro ⟨ds, -, hds, rfl⟩
      obtain rfl := List.map_eq_nil_iff.mp hds.symm
      simp [natFrom?, decimalValue]
  | cons b t ih =>
    constructor
    · intro h
      rw [natFrom?] at h
      cases hb : digit? b with
      | none => rw [hb] at h; cases h
      | some d =>
        rw [hb] at h
        obtain ⟨hd, rfl⟩ := digit?_eq_some_iff.mp hb
        obtain ⟨ds, hds, rfl, rfl⟩ := ih.mp h
        refine ⟨d :: ds, List.forall_mem_cons.mpr ⟨hd, hds⟩, rfl, ?_⟩
        rw [decimalValue_cons, List.length_cons, pow_succ]
        ring
    · rintro ⟨ds, hds, ht, rfl⟩
      obtain ⟨d, ds, rfl, rfl, rfl⟩ := List.map_eq_cons_iff.mp ht.symm
      obtain ⟨hd, hds⟩ := List.forall_mem_cons.mp hds
      rw [natFrom?, digit?_ofNat hd]
      refine ih.mpr ⟨ds, hds, rfl, ?_⟩
      rw [decimalValue_cons, List.length_cons, pow_succ]
      ring

theorem toNat?_eq_some_iff : toNat? t = some n ↔ IsDecimal t n := by
  rw [toNat?]
  by_cases ht : t = []
  · subst ht
    refine ⟨fun h => (by cases h), ?_⟩
    rintro ⟨ds, hne, -, hds, -⟩
    exact absurd (List.map_eq_nil_iff.mp hds.symm) hne
  · rw [if_neg (by simpa using ht), natFrom?_eq_some_iff]
    constructor
    · rintro ⟨ds, hds, rfl, rfl⟩
      exact ⟨ds, fun h => ht (by rw [h]; rfl), hds, rfl, by simp⟩
    · rintro ⟨ds, -, hds, rfl, rfl⟩
      exact ⟨ds, hds, rfl, by simp⟩

theorem IsDecimal.digits (h : IsDecimal t n) : ∀ b ∈ t, 0x30 ≤ b.toNat ∧ b.toNat ≤ 0x39 := by
  obtain ⟨ds, -, hds, rfl, -⟩ := h
  intro b hb
  obtain ⟨d, hd, rfl⟩ := List.mem_map.mp hb
  have hlt := hds d hd
  rw [toNat_ofNat_byte (by omega)]
  omega

/-- Nothing but digits and signs stands in an integer. -/
theorem IsInteger.bytes {i : Int} (h : IsInteger t i) :
    ∀ b ∈ t, (0x30 ≤ b.toNat ∧ b.toNat ≤ 0x39) ∨ b = 0x2B ∨ b = 0x2D := by
  intro b hb
  cases h with
  | unsigned h => exact .inl (h.digits b hb)
  | plus h =>
    rcases List.mem_cons.mp hb with rfl | hb
    · exact .inr (.inl rfl)
    · exact .inl (h.digits b hb)
  | minus h =>
    rcases List.mem_cons.mp hb with rfl | hb
    · exact .inr (.inr rfl)
    · exact .inl (h.digits b hb)

theorem toInt?_eq_some_iff {i : Int} : toInt? t = some i ↔ IsInteger t i := by
  constructor
  · intro h
    unfold toInt? at h
    split at h
    · obtain ⟨n, hn, rfl⟩ := Option.map_eq_some_iff.mp h
      exact .plus (toNat?_eq_some_iff.mp hn)
    · obtain ⟨_, hmap, rfl⟩ := Option.map_eq_some_iff.mp h
      obtain ⟨n, hn, hi⟩ := Option.bind_eq_some_iff.mp hmap
      obtain rfl := Option.some.inj hi
      exact .minus (toNat?_eq_some_iff.mp hn)
    · obtain ⟨n, hn, rfl⟩ := Option.map_eq_some_iff.mp h
      exact .unsigned (toNat?_eq_some_iff.mp hn)
  · intro h
    cases h with
    | unsigned h => rw [toInt?_of_digits h.digits, toNat?_eq_some_iff.mpr h]; rfl
    | plus h => rw [toInt?, toNat?_eq_some_iff.mpr h]; rfl
    | minus h => rw [toInt?, toNat?_eq_some_iff.mpr h]; rfl

theorem word?_eq_some_iff {i : Int} {k : Int64} : word? i = some k ↔ i = k.toInt := by
  rw [word?]
  constructor
  · intro h
    split_ifs at h with hi
    obtain rfl := Option.some.inj h
    rw [Int64.toInt_ofInt_of_le hi.1 (Int.lt_of_le_of_lt hi.2 (by decide))]
  · rintro rfl
    rw [if_pos ⟨k.minValue_le_toInt, k.toInt_le⟩, Int64.ofInt_toInt]

/-- A signed 64-bit integer is read from the texts that are that integer in decimal, and from no
others. -/
theorem toInt64?_eq_some_iff {k : Int64} : toInt64? t = some k ↔ IsInteger t k.toInt := by
  rw [toInt64?, Option.bind_eq_some_iff]
  constructor
  · rintro ⟨i, hi, hk⟩
    rw [word?_eq_some_iff.mp hk] at hi
    exact toInt?_eq_some_iff.mp hi
  · intro h
    exact ⟨k.toInt, toInt?_eq_some_iff.mpr h, word?_eq_some_iff.mpr rfl⟩

theorem IsDecimal.toInt64? (h : IsDecimal t n) : toInt64? t = word? n := by
  rw [Text.toInt64?, toInt?_eq_some_iff.mpr (.unsigned h)]
  rfl

/-- A text with a byte that is neither a digit nor a sign is no integer. -/
theorem toInt64?_eq_none {b : UInt8} (hb : b ∈ t) (hdigit : b.toNat < 0x30 ∨ 0x39 < b.toNat)
    (hsign : b ≠ 0x2B ∧ b ≠ 0x2D) : toInt64? t = none := by
  cases hk : toInt64? t with
  | none => rfl
  | some k =>
    have hbytes := (toInt64?_eq_some_iff.mp hk).bytes b hb
    rcases hbytes with hd | hs | hs
    · omega
    · exact absurd hs hsign.1
    · exact absurd hs hsign.2

end Denotation.Text
