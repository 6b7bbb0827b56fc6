import Denotation.Simple.Printing
import Denotation.Text.Quoted

/-!
# Forms

The forms that programs of the machine are made of: atoms, lists in round brackets and vectors in
square ones. They are what a Clojure rendering reads as.
-/

namespace Denotation

/-- A form. -/
inductive Form where
  /-- The atom `nil`. -/
  | nil
  /-- A truth value. -/
  | bool (b : Bool)
  /-- An integer. -/
  | int (n : Int64)
  /-- A quoted text. -/
  | text (t : Text)
  /-- Any other atom. -/
  | symbol (name : Text)
  /-- Forms in round brackets. -/
  | list (items : List Form)
  /-- Forms in square brackets. -/
  | vector (items : List Form)
  deriving Repr

mutual

/-- A form as messages show it: lists and vectors look alike, and texts are not quoted. -/
def Form.display : Form → Text
  | .nil => "<nil>"
  | .bool b => boolText b
  | .int n => Text.ofInt64 n
  | .text t => t
  | .symbol name => name
  | .list items => "[" ++ Text.join " " (Form.displayAll items) ++ "]"
  | .vector items => "[" ++ Text.join " " (Form.displayAll items) ++ "]"

/-- The forms of a list as messages show them. -/
def Form.displayAll : List Form → List Text
  | [] => []
  | f :: rest => f.display :: Form.displayAll rest

end

/-- The heads of lists that are not calls. -/
inductive Special where
  /-- Makes a closure. -/
  | fn
  /-- Evaluates one of two forms. -/
  | branch
  /-- Binds names and evaluates a body, again and again. -/
  | loop
  /-- Starts the next round of the enclosing closure or loop. -/
  | recur
  deriving DecidableEq, Repr

/-- The special form that a list with this head is. -/
def Form.special? : Form → Option Special
  | .symbol name =>
    if name == Text.ofString "fn" then some .fn
    else if name == Text.ofString "if" then some .branch
    else if name == Text.ofString "loop" then some .loop
    else if name == Text.ofString "recur" then some .recur
    else none
  | _ => none

mutual

/-- Whether a closure may be made while the form is evaluated, calls apart: the form is or contains a
list with the head `fn`. -/
def Form.makesClosure : Form → Bool
  | .list [] => false
  | .list (head :: rest) =>
    head.special? == some .fn || head.makesClosure || Form.anyMakesClosure rest
  | .vector items => Form.anyMakesClosure items
  | _ => false

/-- Whether one of the forms may make a closure. -/
def Form.anyMakesClosure : List Form → Bool
  | [] => false
  | f :: rest => f.makesClosure || Form.anyMakesClosure rest

end

end Denotation
