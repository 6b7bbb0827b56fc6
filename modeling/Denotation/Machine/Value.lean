import Denotation.Machine.Form
import Denotation.Number.Double

/-!
# Values

The values that programs compute with and pass across the border of the machine. Programs make
integers, truth values, texts, maps, lists, vectors and closures; the other kinds only come in from
outside, as arguments, settings or answers of interpreters.

A map is a list of bindings in the order of its keys. A closure holds the frames of names that were
visible where it was made, innermost first. A frame is either a list of bindings of its own, or the
number of a frame that the machine keeps: the frame of a loop whose initialisers make closures still
grows while those closures exist.
-/

namespace Denotation

/-- The functions that every program can call. -/
inductive Builtin where
  | get
  | assoc
  | add
  | multiply
  | less
  deriving DecidableEq, Repr

/-- The name that a program calls a builtin by. -/
def Builtin.name : Builtin → Text
  | .get => "get"
  | .assoc => "assoc"
  | .add => "+"
  | .multiply => "*"
  | .less => "<"

/-- The builtin of the given name. -/
def Builtin.ofName? (name : Text) : Option Builtin :=
  [.get, .assoc, .add, .multiply, .less].find? fun b => b.name == name

/-- The kinds of value. -/
inductive Kind where
  | nil
  | bool
  | int
  | text
  | symbol
  | list
  | vector
  | map
  | builtin
  | closure
  | word
  | double
  | array
  | numeral
  | natural
  | time
  | mixedMap
  deriving DecidableEq, Repr

/-- A kind as messages show it. -/
def Kind.name : Kind → Text
  | .nil => "<nil>"
  | .bool => "bool"
  | .int => "int64"
  | .text => "string"
  | .symbol => "sexpr.Symbol"
  | .list => "sexpr.List"
  | .vector => "sexpr.Vector"
  | .map => "map[string]interface \x7b\x7d"
  | .builtin => "sexpr.builtin"
  | .closure => "*sexpr.Fn"
  | .word => "int"
  | .double => "float64"
  | .array => "[]interface \x7b\x7d"
  | .numeral => "json.Number"
  | .natural => "uint64"
  | .time => "time.Time"
  | .mixedMap => "map[interface \x7b\x7d]interface \x7b\x7d"

/-- The kinds of value that only a settings file holds and nothing computes with. -/
inductive BareKind where
  | natural
  | time
  | mixedMap
  deriving DecidableEq, Repr

/-- The kind of such a value. -/
def BareKind.kind : BareKind → Kind
  | .natural => .natural
  | .time => .time
  | .mixedMap => .mixedMap

mutual

/-- A value. -/
inductive Value where
  /-- The absent value. -/
  | nil
  /-- A truth value. -/
  | bool (b : Bool)
  /-- A 64-bit integer. -/
  | int (n : Int64)
  /-- A text. -/
  | text (t : Text)
  /-- A symbol, from outside. -/
  | symbol (name : Text)
  /-- A list. -/
  | list (items : List Value)
  /-- A vector. -/
  | vector (items : List Value)
  /-- A map, in the order of its keys. -/
  | map (entries : List (Text × Value))
  /-- A map that was never made: it reads as an empty one, and JSON writes it as `null`. -/
  | unset
  /-- A builtin function. -/
  | builtin (b : Builtin)
  /-- A function with the names visible where it was made. -/
  | closure (name : Option Text) (params : List Text) (body : List Form) (scope : List Frame)
  /-- An integer of a settings file. -/
  | word (n : Int)
  /-- A floating point number, from outside. -/
  | double (d : Double)
  /-- A sequence of an answer or of a settings file. -/
  | array (items : List Value)
  /-- A number of an answer by its spelling. -/
  | numeral (t : Text)
  /-- A value of a settings file of which only the kind matters. -/
  | other (k : BareKind)

/-- Names that are visible together. -/
inductive Frame where
  /-- Bindings, the last one first. -/
  | own (bindings : List (Text × Value))
  /-- A frame that the machine keeps. -/
  | shared (number : Nat)

end

instance : Inhabited Value := ⟨.nil⟩

/-- Names with their values. -/
abbrev Bindings := List (Text × Value)

/-- The names visible at some place of a program, innermost frame first. -/
abbrev Scope := List Frame

namespace Value

/-- The kind of a value. -/
def kind : Value → Kind
  | .nil => .nil
  | .bool _ => .bool
  | .int _ => .int
  | .text _ => .text
  | .symbol _ => .symbol
  | .list _ => .list
  | .vector _ => .vector
  | .map _ | .unset => .map
  | .builtin _ => .builtin
  | .closure .. => .closure
  | .word _ => .word
  | .double _ => .double
  | .array _ => .array
  | .numeral _ => .numeral
  | .other k => k.kind

/-- Whether a condition with this value holds: only `nil` and `false` fail it. -/
def isTruthy : Value → Bool
  | .nil => false
  | .bool b => b
  | _ => true

/-- The bindings of a map. -/
def entries? : Value → Option Bindings
  | .map entries => some entries
  | .unset => some []
  | _ => none

end Value

namespace Bindings

/-- The value of the first binding of a name. -/
def find? (name : Text) : Bindings → Option Value
  | [] => none
  | (k, v) :: rest => if k == name then some v else find? name rest

/-- Binds a name in bindings that are in the order of their names, each bound once. -/
def insert (name : Text) (value : Value) : Bindings → Bindings
  | [] => [(name, value)]
  | (k, v) :: rest =>
    if name == k then (name, value) :: rest
    else if Text.before name k then (name, value) :: (k, v) :: rest
    else (k, v) :: insert name value rest

/-- The bindings of a list in the order of their names; of two of one name the later counts. -/
def ofList (l : List (Text × Value)) : Bindings := l.foldl (fun b (k, v) => b.insert k v) []

end Bindings

/-- The text of a function: its name, if it has one. -/
def closureText : Option Text → Text
  | some name => "fn " ++ name
  | none => "fn"

/-- How values are written into messages. -/
inductive Style where
  /-- Every value by its content. -/
  | content
  /-- Texts by their content, and a note with the kind for what is no text. -/
  | textual
  deriving DecidableEq, Repr

/-- The text of a value that is no text. -/
def Style.note (style : Style) (k : Kind) (t : Text) : Text :=
  match style with
  | .content => t
  | .textual =>
    match k with
    | .nil => "%!s(<nil>)"
    | _ => Text.concat ["%!s(", k.name, "=", t, ")"]

mutual

/-- A value as messages show it. -/
def Value.displayAs (style : Style) : Value → Text
  | .nil => style.note .nil "<nil>"
  | .bool b => style.note .bool (boolText b)
  | .int n => style.note .int (Text.ofInt64 n)
  | .text t => t
  | .symbol name => name
  | .list items => "[" ++ Text.join " " (Value.displayAll style items) ++ "]"
  | .vector items => "[" ++ Text.join " " (Value.displayAll style items) ++ "]"
  | .map entries => "map[" ++ Text.join " " (Value.displayEntries style entries) ++ "]"
  | .unset => "map[]"
  | .builtin b => style.note .builtin b.name
  | .closure name _ _ _ => closureText name
  | .word n => style.note .word (Text.ofInt n)
  | .double d => style.note .double d.display
  | .array items => "[" ++ Text.join " " (Value.displayAll style items) ++ "]"
  | .numeral t => t
  | .other k => style.note k.kind k.kind.name

/-- The values of a list as messages show them. -/
def Value.displayAll (style : Style) : List Value → List Text
  | [] => []
  | v :: rest => v.displayAs style :: Value.displayAll style rest

/-- The bindings of a map as messages show them. -/
def Value.displayEntries (style : Style) : List (Text × Value) → List Text
  | [] => []
  | (k, v) :: rest => (k ++ ":" ++ v.displayAs style) :: Value.displayEntries style rest

end

/-- A value as messages show it, by its content. -/
def Value.display (v : Value) : Text := v.displayAs .content

mutual

/-- A value as an answer to the user: a map as names with values in braces. -/
def Value.format : Value → Text
  | .map entries => "\x7b" ++ Text.join ", " (Value.formatEntries entries) ++ "\x7d"
  | .unset => "\x7b\x7d"
  | v => v.display

/-- The bindings of a map as an answer shows them. -/
def Value.formatEntries : List (Text × Value) → List Text
  | [] => []
  | (k, v) :: rest => (k ++ ": " ++ v.format) :: Value.formatEntries rest

end

end Denotation
