import Denotation.Text.Basic

/-!
# Decimal integers

Integers are written in decimal without leading zeros, a negative one after a minus sign. A signed
64-bit integer is read from an optional sign and at least one ASCII digit; what does not fit is
refused.
-/

namespace Denotation.Text

/-- The decimal digits of a natural number. -/
def ofNat (n : Nat) : Text :=
  if n < 10 then [UInt8.ofNat (0x30 + n)] else ofNat (n / 10) ++ [UInt8.ofNat (0x30 + n % 10)]

/-- An integer in decimal. -/
def ofInt : Int → Text
  | .ofNat n => ofNat n
  | .negSucc n => 0x2D :: ofNat (n + 1)

/-- A signed 64-bit integer in decimal. -/
def ofInt64 (n : Int64) : Text := ofInt n.toInt

/-- The value of an ASCII digit. -/
def digit? (b : UInt8) : Option Nat :=
  if 0x30 ≤ b.toNat && b.toNat ≤ 0x39 then some (b.toNat - 0x30) else none

/-- The value of a run of ASCII digits that follows digits of value `n`. -/
def natFrom? (n : Nat) : Text → Option Nat
  | [] => some n
  | b :: rest =>
    match digit? b with
    | some d => natFrom? (10 * n + d) rest
    | none => none

/-- The value of a non-empty run of ASCII digits. -/
def toNat? (t : Text) : Option Nat := if t.isEmpty then none else natFrom? 0 t

/-- The value of an optional sign and a non-empty run of ASCII digits. -/
def toInt? : Text → Option Int
  | 0x2B :: t => (toNat? t).map Int.ofNat
  | 0x2D :: t => (toNat? t).map fun n => -(n : Int)
  | t => (toNat? t).map Int.ofNat

/-- The integer as a signed 64-bit word, if it fits. -/
def word? (n : Int) : Option Int64 :=
  if Int64.minValue.toInt ≤ n ∧ n ≤ Int64.maxValue.toInt then some (Int64.ofInt n) else none

/-- The signed 64-bit integer that the text spells. -/
def toInt64? (t : Text) : Option Int64 := (toInt? t).bind word?

end Denotation.Text
