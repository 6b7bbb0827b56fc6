import Denotation.Number.Double
import Denotation.Text.Decimal

/-!
# What scalars stand for

A plain scalar without a tag stands for the absent value, a truth value, a number, a point in time or,
if it reads as none of these, a text. A tag asks for one of them, and a scalar that cannot be read as
what its tag asks for stands for nothing.
-/

namespace Denotation.Yaml

/-- What a scalar stands for. -/
inductive Meaning where
  | null
  | boolean (b : Bool)
  /-- A signed 64-bit integer. -/
  | integer (n : Int)
  /-- A natural number that only fits in 64 bits without a sign. -/
  | natural (n : Nat)
  | real (d : Double)
  | time
  | text (t : Text)

namespace Meaning

/-- Whether two meanings are the same as keys: no number that is not a number is the same as any, and
points in time are not compared. -/
def same : Meaning → Meaning → Bool
  | .null, .null => true
  | .boolean a, .boolean b => a == b
  | .integer a, .integer b => a == b
  | .natural a, .natural b => a == b
  | .real a, .real b => !a.isNaN && (a == b || (a.mantissa == 0 && b.mantissa == 0))
  | .text a, .text b => a == b
  | _, _ => false

/-! ## Words -/

/-- The words that stand for something else than a text. -/
def words : List (List Text × Meaning) :=
  [(["true", "True", "TRUE"], .boolean true),
    (["false", "False", "FALSE"], .boolean false),
    (["~", "null", "Null", "NULL"], .null),
    ([".nan", ".NaN", ".NAN"], .real Double.nan),
    ([".inf", ".Inf", ".INF", "+.inf", "+.Inf", "+.INF"], .real (Double.infinity false)),
    (["-.inf", "-.Inf", "-.INF"], .real (Double.infinity true))]

/-- What a word stands for. -/
def ofWord? (t : Text) : Option Meaning :=
  (words.find? fun (spellings, _) => spellings.contains t).map Prod.snd

/-! ## Numbers -/

/-- The value of a digit in bases up to sixteen. -/
def digit? (b : UInt8) : Option Nat :=
  let n := b.toNat
  if 0x30 ≤ n && n ≤ 0x39 then some (n - 0x30)
  else if 0x61 ≤ n && n ≤ 0x66 then some (n - 0x57)
  else if 0x41 ≤ n && n ≤ 0x46 then some (n - 0x37)
  else none

/-- The value of digits in a base after digits of value `n`. -/
def digits? (base : Nat) (n : Nat) : Text → Option Nat
  | [] => some n
  | b :: rest =>
    match digit? b with
    | some d => if d < base then digits? base (base * n + d) rest else none
    | none => none

/-- The value of a numeral without a sign, in the base that its first digits name. -/
def numeral? : Text → Option Nat
  | [] => none
  | 0x30 :: b :: c :: rest =>
    let lower := b ||| 0x20
    if lower == 0x62 then digits? 2 0 (c :: rest)
    else if lower == 0x6F then digits? 8 0 (c :: rest)
    else if lower == 0x78 then digits? 16 0 (c :: rest)
    else digits? 8 0 (b :: c :: rest)
  | 0x30 :: rest => digits? 8 0 rest
  | t => digits? 10 0 t

/-- The value of a numeral in a given base, which has to have a digit. -/
def inBase? (base : Nat) (t : Text) : Option Nat := if t.isEmpty then none else digits? base 0 t

/-- The signed 64-bit integer of a sign and a numeral. -/
def signed? (numeral : Text → Option Nat) : Text → Option Int
  | 0x2B :: t => ((numeral t).map Int.ofNat).filter fun n => n ≤ Int64.maxValue.toInt
  | 0x2D :: t => ((numeral t).map fun n => -(n : Int)).filter fun n => Int64.minValue.toInt ≤ n
  | t => ((numeral t).map Int.ofNat).filter fun n => n ≤ Int64.maxValue.toInt

/-- The natural number of a numeral if it fits in 64 bits. -/
def unsigned? (numeral : Text → Option Nat) (t : Text) : Option Nat :=
  (numeral t).filter fun n => n < UInt64.size

/-- What a signed numeral stands for. -/
def ofNumeral? (numeral : Text → Option Nat) (t : Text) : Option Meaning :=
  ((signed? numeral t).map .integer) <|> ((unsigned? numeral t).map .natural)

/-- What a decimal with an optional sign stands for. -/
def ofDecimal? (t : Text) : Option Meaning :=
  let (negative, body) := match t with
    | 0x2D :: r => (true, r)
    | 0x2B :: r => (false, r)
    | r => (false, r)
  (Double.decimal? body).bind fun (n, e) => (Double.ofDecimal? negative n e).map .real

/-- What a numeral after `0b` or `0o` stands for, with a sign in front of it or behind it. -/
def ofMarked? (mark : Text) (base : Nat) (t : Text) : Option Meaning :=
  match Text.dropStart? mark t with
  | some rest => ofNumeral? (inBase? base) rest
  | none =>
    match Text.dropStart? (0x2D :: mark) t with
    | some rest => (signed? (inBase? base) (0x2D :: rest)).map .integer
    | none => none

/-- What a numeral or a decimal stands for; underscores count for nothing. -/
def ofNumber? (t : Text) : Option Meaning :=
  let plain := t.filter (· != 0x5F)
  ofNumeral? numeral? plain <|> ofDecimal? plain <|> ofMarked? "0b" 2 plain <|> ofMarked? "0o" 8 plain

/-- Whether every underscore stands between two digits; `digit` says whether a digit came before. -/
def separatesDigits : Bool → Text → Bool
  | _, [] => true
  | digit, b :: rest =>
    if b == 0x5F then digit && (rest.head?.any fun d => (Text.digit? d).isSome) && separatesDigits false rest
    else separatesDigits (Text.digit? b).isSome rest

/-- What a decimal that starts with a point stands for. -/
def ofFraction? (t : Text) : Option Meaning :=
  if separatesDigits false t then ofDecimal? (t.filter (· != 0x5F)) else none

/-! ## Points in time -/

/-- A number of one or two digits at the start of a text, and the text after it. -/
def shortNumber? : Text → Option (Nat × Text)
  | a :: rest =>
    (Text.digit? a).map fun x =>
      match rest with
      | b :: after =>
        match Text.digit? b with
        | some y => (10 * x + y, after)
        | none => (x, rest)
      | [] => (x, [])
  | [] => none

/-- A number of exactly two digits. -/
def pair? : Text → Option Nat
  | [a, b] => do return 10 * (← Text.digit? a) + (← Text.digit? b)
  | _ => none

/-- The number of days of a month. -/
def daysIn (year month : Nat) : Nat :=
  if month == 2 then
    if year % 4 == 0 && (year % 100 != 0 || year % 400 == 0) then 29 else 28
  else if month == 4 || month == 6 || month == 9 || month == 11 then 30
  else 31

/-- The text after a byte, if it starts with it. -/
def after? (b : UInt8) : Text → Option Text
  | a :: rest => if a == b then some rest else none
  | [] => none

/-- The text after a date, which has to exist in the calendar. -/
def afterDate? (t : Text) : Option Text := do
  let year ← Text.toNat? (t.take 4)
  let rest ← after? 0x2D (t.drop 4)
  let (month, rest) ← shortNumber? rest
  let rest ← after? 0x2D rest
  let (day, rest) ← shortNumber? rest
  if 1 ≤ month && month ≤ 12 && 1 ≤ day && day ≤ daysIn year month then return rest else failure

/-- The text after a time of day, with a fraction of a second if there is one. -/
def afterTime? (t : Text) : Option Text := do
  let (hour, rest) ← shortNumber? t
  let rest ← after? 0x3A rest
  let (minute, rest) ← shortNumber? rest
  let rest ← after? 0x3A rest
  let (second, rest) ← shortNumber? rest
  if 24 ≤ hour || 60 ≤ minute || 60 ≤ second then failure
  match rest with
  | point :: d :: _ =>
    if (point == 0x2E || point == 0x2C) && (Text.digit? d).isSome then
      return (rest.drop 1).dropWhile fun b => (Text.digit? b).isSome
    else return rest
  | _ => return rest

/-- Whether the text is a time zone: `Z`, or hours and minutes with a sign. -/
def isZone (t : Text) : Bool :=
  t == Text.ofString "Z" ||
    (t.length == 6 && (t.head? == some 0x2B || t.head? == some 0x2D) && (t.drop 3).head? == some 0x3A
      && ((pair? ((t.drop 1).take 2)).any fun h => h ≤ 24)
      && ((pair? (t.drop 4)).any fun m => m ≤ 60))

/-- Whether the text is a date, or a date with a time of day. -/
def isTime (t : Text) : Bool :=
  (t.takeWhile fun b => (Text.digit? b).isSome).length == 4 &&
    match afterDate? t with
    | none => false
    | some [] => true
    | some (b :: rest) =>
      if b == 0x54 || b == 0x74 then (afterTime? rest).any isZone
      else if b == 0x20 then (afterTime? (rest.dropWhile (· == 0x20))).any List.isEmpty
      else false

/-! ## Scalars -/

/-- What a plain scalar stands for; points in time are only looked for if `times`. -/
def ofPlain (times : Bool) (t : Text) : Meaning :=
  match t with
  | [] => .null
  | b :: _ =>
    match ofWord? t with
    | some m => m
    | none =>
      if b == 0x2E then (ofFraction? t).getD (.text t)
      else if b == 0x2B || b == 0x2D || (Text.digit? b).isSome then
        if times && isTime t then .time else (ofNumber? t).getD (.text t)
      else .text t

/-- The tag of what a plain scalar stands for. -/
def tag : Meaning → Text
  | .null => "!!null"
  | .boolean _ => "!!bool"
  | .integer _ | .natural _ => "!!int"
  | .real _ => "!!float"
  | .time => "!!timestamp"
  | .text _ => "!!str"

/-! ## Data in base 64 -/

/-- The value of a character in base 64. -/
def sextet? (b : UInt8) : Option Nat :=
  let n := b.toNat
  if 0x41 ≤ n && n ≤ 0x5A then some (n - 0x41)
  else if 0x61 ≤ n && n ≤ 0x7A then some (n - 0x47)
  else if 0x30 ≤ n && n ≤ 0x39 then some (n + 4)
  else if n == 0x2B then some 62
  else if n == 0x2F then some 63
  else none

/-- The bytes of data in base 64, in groups of four characters of which the last may be filled up. -/
def base64? : Text → Option Text
  | [] => some []
  | [a, b, 0x3D, 0x3D] => do
    let x := 64 * (← sextet? a) + (← sextet? b)
    return [UInt8.ofNat (x / 16)]
  | [a, b, c, 0x3D] => do
    let x := 4096 * (← sextet? a) + 64 * (← sextet? b) + (← sextet? c)
    return [UInt8.ofNat (x / 1024), UInt8.ofNat (x / 4 % 256)]
  | a :: b :: c :: d :: rest => do
    let x := 262144 * (← sextet? a) + 4096 * (← sextet? b) + 64 * (← sextet? c) + (← sextet? d)
    let data ← base64? rest
    return UInt8.ofNat (x / 65536) :: UInt8.ofNat (x / 256 % 256) :: UInt8.ofNat (x % 256) :: data
  | _ => none

/-- What a scalar with a tag stands for, if it can be read so. Tags of unknown meaning leave a text as
it is. -/
def read? (tag value : Text) : Option Meaning :=
  if tag == Text.ofString "!!binary" then
    (base64? (value.filter fun b => b != 0x0A && b != 0x0D)).map .text
  else if tag == Text.ofString "!!timestamp" then
    match ofPlain true value with
    | .time => some .time
    | _ => none
  else if tag == Text.ofString "!!float" then
    match ofPlain false value with
    | .real d => some (.real d)
    | .integer n => (Double.ofDecimal? (n < 0) n.natAbs 0).map .real
    | _ => none
  else if tag == Text.ofString "!!null" || tag == Text.ofString "!!bool" || tag == Text.ofString "!!int" then
    some (ofPlain false value) |>.filter fun m => m.tag == tag
  else some (.text value)

end Meaning

end Denotation.Yaml
