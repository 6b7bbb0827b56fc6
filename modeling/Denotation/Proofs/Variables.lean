import Denotation.Simple.Tree

/-!
# The variables of a program

The names that stand in a program, in the order in which they stand there, and the names that it
assigns to. A name stands in a program wherever a variable is read or assigned.
-/

namespace Denotation

/-- The variables that an expression reads. -/
def Expr.names : Expr Empty → List Text
  | .variable name => [name]
  | .number _ | .boolean _ => []
  | .add l r | .multiply l r | .lessThan l r => l.names ++ r.names

namespace Stmt

/-- The variables that a statement reads or assigns. -/
def names : Stmt Empty → List Text
  | .doNothing => []
  | .assign name e => name :: e.names
  | .sequence a b => a.names ++ b.names
  | .branch c a b => c.names ++ (a.names ++ b.names)
  | .loop c a => c.names ++ a.names

/-- The variables that a statement assigns. -/
def assigned : Stmt Empty → List Text
  | .doNothing => []
  | .assign name _ => [name]
  | .sequence a b => a.assigned ++ b.assigned
  | .branch _ a b => a.assigned ++ b.assigned
  | .loop _ a => a.assigned

end Stmt

/-- The variables of a program. -/
def Node.names : Node Empty → List Text
  | .expr e => e.names
  | .stmt s => s.names

end Denotation
