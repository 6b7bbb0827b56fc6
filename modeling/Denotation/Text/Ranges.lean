/-!
# Sets of code points

A set of code points is a list of closed ranges in increasing order. Membership walks the list and
stops at the first range that begins above the code point, so a small code point is decided early.
-/

namespace Denotation.Text

/-- A set of code points, as closed ranges in increasing order. -/
abbrev Ranges := List (Nat × Nat)

/-- Whether `n` lies in one of the ranges. -/
def Ranges.contains : Ranges → Nat → Bool
  | [], _ => false
  | (first, last) :: rest, n =>
    if n < first then false else if n ≤ last then true else Ranges.contains rest n

/-- Whether every range begins above the end of the one before it and none is empty. -/
def Ranges.increasing : Ranges → Bool
  | [] => true
  | [(first, last)] => first ≤ last
  | (first, last) :: (next, end₂) :: rest =>
    first ≤ last && last < next && Ranges.increasing ((next, end₂) :: rest)

end Denotation.Text
