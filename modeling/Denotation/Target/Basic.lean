import Denotation.Text.LowerCase
import Denotation.Text.Quoted
import Denotation.Text.Words

/-!
# Targets

The languages that a program can be rendered in, with their names and short names. A target is looked
up by its exact name; what a user types is put in lower case and trimmed first, and may be a short
name.
-/

namespace Denotation

/-- A language that programs are rendered in. -/
inductive Target where
  | clojure
  | javascript
  | python
  | ruby
  deriving DecidableEq, Repr

namespace Target

/-- Every target, in the order of their names. -/
def all : List Target := [.clojure, .javascript, .python, .ruby]

/-- The name of a target. -/
def name : Target → Text
  | .clojure => "clojure"
  | .javascript => "javascript"
  | .python => "python"
  | .ruby => "ruby"

/-- The short name of a target. -/
def shortName : Target → Text
  | .clojure => "clj"
  | .javascript => "js"
  | .python => "py"
  | .ruby => "rb"

/-- The target of exactly this name. -/
def ofName? (t : Text) : Option Target := all.find? fun target => target.name == t

/-- The target of exactly this short name. -/
def ofShortName? (t : Text) : Option Target := all.find? fun target => target.shortName == t

end Target

/-- A name that is no target's. -/
structure UnsupportedTarget where
  /-- The name. -/
  name : Text
  deriving DecidableEq, Repr

/-- The text of the error. -/
def UnsupportedTarget.message (e : UnsupportedTarget) : Text := "unsupported target: " ++ e.name.quote

namespace Target

/-- The target of exactly this name, or the error about it. -/
def ofName (t : Text) : Except UnsupportedTarget Target :=
  match ofName? t with
  | some target => .ok target
  | none => .error ⟨t⟩

/-- The target that a user means by a name or a short name. -/
def resolve (typed : Text) : Except UnsupportedTarget Target :=
  let t := typed.trim.toLower
  match ofShortName? t with
  | some target => .ok target
  | none => ofName t

/-- The targets of a list of names with commas between them; blank names are passed over. -/
def resolveList (list : Text) : Except UnsupportedTarget (List Target) :=
  ((Text.splitOn 0x2C list).filter fun t => !t.trim.isEmpty).mapM resolve

end Target

end Denotation
