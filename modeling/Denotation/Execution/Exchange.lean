import Denotation.Json.Reading
import Denotation.Machine.Value

/-!
# Exchanging values

Values leave for an interpreter as JSON and come back as JSON. On the way out keys are in order and
a number that JSON cannot write is an error. On the way back integers become integers again, at the
top and inside objects; what stands inside an array keeps its numbers by their spelling.
-/

namespace Denotation

/-- A value that JSON cannot write. -/
inductive EncodeError where
  | value (d : Double)
  | kind (k : Kind)
  deriving DecidableEq, Repr

/-- The text of the error. -/
def EncodeError.message : EncodeError → Text
  | .value d => "json: unsupported value: " ++ d.display
  | .kind k => "json: unsupported type: " ++ k.name

mutual

/-- A value as JSON. -/
def Value.toJson : Value → Except EncodeError Json
  | .nil => .ok .null
  | .bool b => .ok (.bool b)
  | .int n => .ok (.number (Text.ofInt64 n))
  | .text t => .ok (.string t)
  | .symbol name => .ok (.string name)
  | .list items => return .array (← Value.allToJson items)
  | .vector items => return .array (← Value.allToJson items)
  | .map entries => return .object (← Value.entriesToJson entries)
  | .unset => .ok .null
  | .builtin _ => .error (.kind .builtin)
  | .closure .. => .ok (.object [])
  | .word n => .ok (.number (Text.ofInt n))
  | .double d => if d.isNaN || d.isInfinite then .error (.value d) else .ok (.number d.json)
  | .array items => return .array (← Value.allToJson items)
  | .numeral t => .ok (.number t)
  | .other k => .error (.kind k.kind)

/-- The values of a list as JSON. -/
def Value.allToJson : List Value → Except EncodeError (List Json)
  | [] => .ok []
  | v :: rest => return (← v.toJson) :: (← Value.allToJson rest)

/-- The bindings of a map as JSON. -/
def Value.entriesToJson : List (Text × Value) → Except EncodeError (List (Text × Json))
  | [] => .ok []
  | (k, v) :: rest => return (k, ← v.toJson) :: (← Value.entriesToJson rest)

end

mutual

/-- A JSON value with its numbers by their spelling. -/
def Value.ofRawJson : Json → Value
  | .null => .nil
  | .bool b => .bool b
  | .number spelling => .numeral spelling
  | .string t => .text t
  | .array items => .array (Value.allOfRawJson items)
  | .object members => .map (Bindings.ofList (Value.membersOfRawJson members))

/-- JSON values with their numbers by their spelling. -/
def Value.allOfRawJson : List Json → List Value
  | [] => []
  | j :: rest => Value.ofRawJson j :: Value.allOfRawJson rest

/-- The members of an object with their numbers by their spelling. -/
def Value.membersOfRawJson : List (Text × Json) → List (Text × Value)
  | [] => []
  | (k, j) :: rest => (k, Value.ofRawJson j) :: Value.membersOfRawJson rest

end

/-- A number that is no 64-bit integer, by its spelling. -/
structure NotInteger where
  /-- The spelling. -/
  spelling : Text
  deriving DecidableEq, Repr

mutual

/-- A value with the numbers at its top and inside its maps as integers. -/
def Value.normalize : Value → Except NotInteger Value
  | .numeral t =>
    match Text.toInt64? t with
    | some n => .ok (.int n)
    | none => .error ⟨t⟩
  | .map entries => return .map (← Value.normalizeEntries entries)
  | v => .ok v

/-- Bindings with their values normalized. -/
def Value.normalizeEntries : List (Text × Value) → Except NotInteger (List (Text × Value))
  | [] => .ok []
  | (k, v) :: rest => return (k, ← v.normalize) :: (← Value.normalizeEntries rest)

end

/-- The value that a JSON value stands for. -/
def Value.ofJson (j : Json) : Except NotInteger Value := (Value.ofRawJson j).normalize

/-- The environment that is written for an interpreter; one that was never made is empty. -/
def environmentText (env : Option Bindings) : Except EncodeError Text :=
  match env with
  | none => .ok (Json.object []).write
  | some entries => (Value.map entries).toJson.map Json.write

end Denotation
