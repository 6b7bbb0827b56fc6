import Denotation.Text.Decimal

/-!
# Doubles

A double is held by its bits. Everything is computed exactly on natural numbers: a finite double is
`mantissa * 2 ^ exponent`, a decimal is rounded to the nearest double with ties to the even mantissa,
and the shortest decimal of a double is the one with the fewest digits that rounds back to it, the
nearest of those, and of two equally near the one with the even last digit.
-/

namespace Denotation

/-- A 64-bit floating point number. -/
structure Double where
  /-- The sign bit, eleven bits of exponent and fifty-two bits of fraction. -/
  bits : UInt64
  deriving DecidableEq, Repr

namespace Double

/-- Whether the sign bit is set. -/
def isNegative (d : Double) : Bool := d.bits.toNat / Nat.pow 2 63 == 1

/-- The eleven bits of exponent. -/
def exponentBits (d : Double) : Nat := d.bits.toNat / Nat.pow 2 52 % Nat.pow 2 11

/-- The fifty-two bits of fraction. -/
def fractionBits (d : Double) : Nat := d.bits.toNat % Nat.pow 2 52

/-- Whether the double is no number. -/
def isNaN (d : Double) : Bool := d.exponentBits == 2047 && d.fractionBits != 0

/-- Whether the double is an infinity. -/
def isInfinite (d : Double) : Bool := d.exponentBits == 2047 && d.fractionBits == 0

/-- The mantissa of a finite double. -/
def mantissa (d : Double) : Nat :=
  if d.exponentBits == 0 then d.fractionBits else d.fractionBits + Nat.pow 2 52

/-- The power of two that the mantissa of a finite double is multiplied by. -/
def exponent (d : Double) : Int :=
  if d.exponentBits == 0 then -1074 else (d.exponentBits : Int) - 1075

/-- The double with the given sign, exponent bits and fraction bits. -/
def ofParts (negative : Bool) (exponentBits fractionBits : Nat) : Double :=
  let sign := if negative then Nat.pow 2 63 else 0
  ⟨UInt64.ofNat (sign + exponentBits * Nat.pow 2 52 + fractionBits)⟩

/-- No number. -/
def nan : Double := ofParts false 2047 1

/-- An infinity. -/
def infinity (negative : Bool) : Double := ofParts negative 2047 0

/-- The nearest integer to `num / den`, the even one of two. -/
def roundDiv (num den : Nat) : Nat :=
  let q := num / den
  let r := num % den
  if 2 * r < den || (2 * r == den && q % 2 == 0) then q else q + 1

/-- The double nearest to `num / den`, unless it is out of range. -/
def ofRatio? (negative : Bool) (num den : Nat) : Option Double :=
  if num == 0 then some (ofParts negative 0 0)
  else
    let e : Int := (num.log2 : Int) - den.log2
    -- The exponent for which the quotient has fifty-three binary digits.
    let e := if num * Nat.pow 2 (-e).toNat < den * Nat.pow 2 e.toNat then e - 1 else e
    let q := max (e - 52) (-1074)
    let m := roundDiv (num * Nat.pow 2 (-q).toNat) (den * Nat.pow 2 q.toNat)
    let (m, q) := if m == Nat.pow 2 53 then (Nat.pow 2 52, q + 1) else (m, q)
    if m < Nat.pow 2 52 then some (ofParts negative 0 m)
    else if q + 1075 < 2047 then some (ofParts negative (q + 1075).toNat (m - Nat.pow 2 52))
    else none

/-- The double nearest to `digits * 10 ^ exponent`, unless it is out of range. Decimals that are far
out of range are decided by their size. -/
def ofDecimal? (negative : Bool) (digits : Nat) (exponent : Int) : Option Double :=
  let size := ((Text.ofNat digits).length : Int) + exponent
  if digits == 0 || size < -330 then some (ofParts negative 0 0)
  else if 310 < size then none
  else ofRatio? negative (digits * Nat.pow 10 exponent.toNat) (Nat.pow 10 (-exponent).toNat)

/-- A decimal `0.d₁d₂… * 10 ^ point`, by its digits, the first of which is not zero. -/
structure Digits where
  /-- The digits as text. -/
  digits : Text
  /-- Where the decimal point stands. -/
  point : Int

/-- The exponent of the leading decimal digit of `num / den`. -/
def leading (num den : Nat) : Int :=
  if den ≤ num then ((Text.ofNat (num / den)).length : Int) - 1
  else -((((List.range 400).find? fun k => den ≤ num * Nat.pow 10 k).getD 0 : Nat) : Int)

/-- The first natural number of the list that lies between the bounds, which count as inside if
`closed`. -/
def inside? (closed : Bool) (low high : Nat) (unit : Nat) (candidates : List Nat) : Option Nat :=
  candidates.find? fun c =>
    let x := c * unit
    (low < x && x < high) || (closed && (low == x || x == high))

/-- The shortest decimal that rounds to a finite, nonzero double, disregarding its sign. -/
def shortest (d : Double) : Digits :=
  let m := d.mantissa
  let q := d.exponent - 2
  let up := Nat.pow 2 q.toNat
  let den := Nat.pow 2 (-q).toNat
  let value := 4 * m * up
  let low := (if d.fractionBits == 0 && 1 < d.exponentBits then 4 * m - 1 else 4 * m - 2) * up
  let high := (4 * m + 2) * up
  let lead := leading value den
  -- With `n` digits the grid has the unit `10 ^ p`.
  let attempt (n : Nat) : Option Digits :=
    let p := lead - n + 1
    let scale := Nat.pow 10 (-p).toNat
    let unit := Nat.pow 10 p.toNat * den
    let below := value * scale / unit
    let rest := value * scale % unit
    let isLower := 2 * rest < unit || (2 * rest == unit && below % 2 == 0)
    let order := if isLower then [below, below + 1] else [below + 1, below]
    (inside? (m % 2 == 0) (low * scale) (high * scale) unit order).map fun c =>
      let t := Text.ofNat c
      ⟨(t.reverse.dropWhile (· == 0x30)).reverse, p + t.length⟩
  ((List.range 17).findSome? fun n => attempt (n + 1)).getD ⟨Text.ofNat 0, 1⟩

/-- The digits with a decimal point where it belongs. -/
def positional (s : Digits) : Text :=
  if s.point ≤ 0 then Text.concat ["0.", List.replicate (-s.point).toNat 0x30, s.digits]
  else
    let n := s.point.toNat
    if s.digits.length ≤ n then s.digits ++ List.replicate (n - s.digits.length) 0x30
    else s.digits.take n ++ 0x2E :: s.digits.drop n

/-- The digits in scientific notation, the exponent with at least `width` digits. -/
def scientific (width : Nat) (s : Digits) : Text :=
  let e := s.point - 1
  let fraction := s.digits.drop 1
  let exponent := Text.ofNat e.natAbs
  Text.concat [s.digits.take 1, if fraction.isEmpty then [] else 0x2E :: fraction, "e",
    if e < 0 then "-" else "+", List.replicate (width - exponent.length) 0x30, exponent]

/-- The sign of a double as text. -/
def sign (d : Double) : Text := if d.isNegative then "-" else ""

/-- A double as messages show it: positional from `0.0001` up to six digits before the point. -/
def display (d : Double) : Text :=
  if d.isNaN then "NaN"
  else if d.isInfinite then if d.isNegative then "-Inf" else "+Inf"
  else if d.mantissa == 0 then d.sign ++ "0"
  else
    let s := d.shortest
    d.sign ++ if s.point < -3 || 6 < s.point then scientific 2 s else positional s

/-- A finite double as JSON writes it: positional from `0.000001` up to twenty-one digits before the
point. -/
def json (d : Double) : Text :=
  if d.mantissa == 0 then d.sign ++ "0"
  else
    let s := d.shortest
    d.sign ++ if s.point < -5 || 21 < s.point then scientific 1 s else positional s

/-- The integer part of a finite double, towards zero. -/
def truncate (d : Double) : Int :=
  let n := d.mantissa * Nat.pow 2 d.exponent.toNat / Nat.pow 2 (-d.exponent).toNat
  if d.isNegative then -(n : Int) else n

/-- The digits of a decimal without its sign: digits with at most one point, at least one digit, and
an optional exponent. The result is the digits as a number and the power of ten. -/
def decimal? (t : Text) : Option (Nat × Int) :=
  let isDigit := fun b => (Text.digit? b).isSome
  let whole := t.takeWhile isDigit
  let rest := t.dropWhile isDigit
  let (fraction, rest) := match rest with
    | 0x2E :: r => (r.takeWhile isDigit, r.dropWhile isDigit)
    | r => ([], r)
  match Text.toNat? (whole ++ fraction), rest with
  | some n, [] => some (n, -(fraction.length : Int))
  | some n, e :: r =>
    if e == 0x65 || e == 0x45 then (Text.toInt? r).map fun x => (n, x - fraction.length) else none
  | none, _ => none

/-- The double that a decimal, `NaN` or a signed `Inf` stands for. -/
def ofText? (t : Text) : Option Double :=
  let (negative, t) := match t with
    | 0x2D :: r => (true, r)
    | 0x2B :: r => (false, r)
    | r => (false, r)
  if t == Text.ofString "NaN" then some nan
  else if t == Text.ofString "Inf" then some (infinity negative)
  else (decimal? t).bind fun (n, e) => ofDecimal? negative n e

end Double

end Denotation
