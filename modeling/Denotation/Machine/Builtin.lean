import Denotation.Machine.Failure

/-!
# Builtin functions

`get` and `assoc` work on maps and never change one, `+` and `*` take any number of integers and wrap
around, and `<` holds when its arguments increase. `<` stops at the first two that do not, so what
follows them may be of any kind.
-/

namespace Denotation

namespace Builtin

/-- The integers that the arguments of a builtin are, from the given position on. -/
def integers (b : Builtin) : Nat → List Value → Except RunError (List Int64)
  | _, [] => .ok []
  | n, .int k :: rest => return k :: (← integers b (n + 1) rest)
  | n, v :: _ => .error (.mismatch (.operand b n v.kind))

/-- Whether `prev` and the arguments, the first of which has the given position, increase. -/
def increasing : Nat → Int64 → List Value → Except RunError Bool
  | _, _, [] => .ok true
  | n, prev, .int k :: rest => if prev < k then increasing (n + 1) k rest else .ok false
  | n, _, v :: _ => .error (.mismatch (.operand .less n v.kind))

/-- Adds keys and values, one after the other, to a map. -/
def assocAll : Bindings → List Value → Except RunError Bindings
  | m, .text k :: v :: rest => assocAll (m.insert k v) rest
  | _, v :: _ :: _ => .error (.mismatch (.key v.kind))
  | m, _ => .ok m

/-- The value of a key in a map, `nil` if it has none. -/
def applyGet : List Value → Except RunError Value
  | [m, key] =>
    match m.entries? with
    | none => .error (.mismatch (.getFrom m.kind))
    | some entries =>
      match key with
      | .text k => .ok ((entries.find? k).getD .nil)
      | v => .error (.mismatch (.key v.kind))
  | args => .error (.miscount (.get args.length))

/-- A copy of a map with keys bound to values; `nil` counts as an empty map. -/
def applyAssoc : List Value → Except RunError Value
  | [] => .error (.miscount (.assoc 0))
  | m :: rest =>
    if rest.length < 2 || rest.length % 2 == 1 then .error (.miscount (.assoc (rest.length + 1)))
    else
      match m, m.entries? with
      | .nil, _ => (assocAll [] rest).map .map
      | _, some entries => (assocAll entries rest).map .map
      | v, none => .error (.mismatch (.assocInto v.kind))

/-- Whether the arguments increase. -/
def applyLess : List Value → Except RunError Value
  | [] => .error (.miscount .less)
  | .int k :: rest => (increasing 2 k rest).map .bool
  | v :: _ => .error (.mismatch (.operand .less 1 v.kind))

/-- The value of a builtin for the given arguments. -/
def apply : Builtin → List Value → Except RunError Value
  | .get, args => applyGet args
  | .assoc, args => applyAssoc args
  | .add, args => (integers .add 1 args).map fun ns => .int (ns.foldl (· + ·) 0)
  | .multiply, args => (integers .multiply 1 args).map fun ns => .int (ns.foldl (· * ·) 1)
  | .less, args => applyLess args

end Builtin

end Denotation
