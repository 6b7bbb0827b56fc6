import Denotation.Machine.Value

/-!
# Titled blocks

A block shows a value under a title between two rules.
-/

namespace Denotation

/-- A text under a title. -/
def block (title body : Text) : Text :=
  Text.concat ["------------ ", title, " ------------\n", body, "\n"]

/-- A value under a title that is a value too. -/
def valueBlock (title body : Value) : Text := block (title.displayAs .textual) (body.displayAs .textual)

end Denotation
