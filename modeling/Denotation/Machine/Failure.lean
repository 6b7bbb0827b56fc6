import Denotation.Machine.Reader
import Denotation.Machine.Value

/-!
# Failures of a run

Why the run of a program ends without a value.
-/

namespace Denotation

/-- A special form that is not put together as it should be. -/
inductive Malformed where
  | fnWithoutParams
  | fnParams
  | fnParam (given : Form)
  | branchForms (given : Nat)
  | loopWithoutBindings
  | loopBindings
  | loopBinding (given : Form)

/-- What is wrong with the form. -/
def Malformed.message : Malformed → Text
  | .fnWithoutParams => "fn without parameter vector"
  | .fnParams => "fn parameters must be a vector"
  | .fnParam f => Text.concat ["fn parameter ", f.display, " is not a symbol"]
  | .branchForms n => "if takes 2 or 3 forms, given " ++ Text.ofNat n
  | .loopWithoutBindings => "loop without bindings"
  | .loopBindings => "loop bindings must be a vector of pairs"
  | .loopBinding f => Text.concat ["loop binding ", f.display, " is not a symbol"]

/-- A value of the wrong kind. -/
inductive Mismatch where
  /-- A lookup in what is no map. -/
  | getFrom (k : Kind)
  /-- A binding added to what is no map. -/
  | assocInto (k : Kind)
  /-- A key that is no text. -/
  | key (k : Kind)
  /-- An argument, counted from one, that is no integer. -/
  | operand (b : Builtin) (position : Nat) (k : Kind)
  deriving DecidableEq, Repr

/-- What is wrong with the value. -/
def Mismatch.message : Mismatch → Text
  | .getFrom k => "get from " ++ k.name
  | .assocInto k => "assoc into " ++ k.name
  | .key k => "map key " ++ k.name
  | .operand b n k =>
    Text.concat [b.name, " argument ", Text.ofNat n, " is ", k.name, ", not a number"]

/-- A wrong number of arguments. -/
inductive Miscount where
  | get (given : Nat)
  | assoc (given : Nat)
  | less
  | closure (name : Option Text) (wanted given : Nat)
  | recur (wanted given : Nat)
  deriving DecidableEq, Repr

/-- What is wrong with the number. -/
def Miscount.message : Miscount → Text
  | .get n => "get takes 2, given " ++ Text.ofNat n
  | .assoc n => "assoc takes a map and key/value pairs, given " ++ Text.ofNat n
  | .less => "< takes at least 1"
  | .closure name wanted given =>
    Text.concat [closureText name, " takes ", Text.ofNat wanted, ", given ", Text.ofNat given]
  | .recur wanted given =>
    Text.concat ["recur takes ", Text.ofNat wanted, ", given ", Text.ofNat given]

/-- Why a run ends without a value. -/
inductive RunError where
  /-- The source is not one form. -/
  | unreadable (e : ReadError)
  /-- A special form is not put together as it should be. -/
  | malformed (e : Malformed)
  /-- A symbol has no value. -/
  | unbound (name : Text)
  /-- A value is of the wrong kind. -/
  | mismatch (e : Mismatch)
  /-- A call has the wrong number of arguments. -/
  | miscount (e : Miscount)
  /-- A `recur` stands where its value would be used. -/
  | misplacedRecur
  /-- The machine has started more rounds than its cap allows. -/
  | roundLimit (cap : Int)
  /-- What is called is no function; this is how it shows. -/
  | notCallable (shown : Text)
  /-- The run was cancelled. -/
  | cancelled

/-- The text of a failure. -/
def RunError.message : RunError → Text
  | .unreadable e => "syntax error: " ++ e.message
  | .malformed e => "syntax error: " ++ e.message
  | .unbound name => "unbound symbol: " ++ name
  | .mismatch e => "type error: " ++ e.message
  | .miscount e => "wrong number of arguments: " ++ e.message
  | .misplacedRecur => "recur outside tail position"
  | .roundLimit cap => "recur limit exceeded: " ++ Text.ofInt cap
  | .notCallable shown => "not callable: " ++ shown
  | .cancelled => "context canceled"

end Denotation
