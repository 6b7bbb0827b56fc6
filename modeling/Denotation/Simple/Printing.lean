import Denotation.Simple.Tree
import Denotation.Text.Decimal

/-!
# Printing programs

`Node.print` writes a program in Simple syntax. Operators nest to the right, so a left operand of the
same strength is bracketed and a right one is not; statements are never bracketed, which makes every
sequence read back nested to the right.

A gap prints as a text of its own. An operator whose operand is missing cannot be printed: on its own
that is a failure, inside a statement a note stands in its place.
-/

namespace Denotation

/-- How the gaps of a tree print. -/
class GapText (γ : Type) where
  /-- The text in place of the gap. -/
  text : γ → Text
  /-- Whether nothing at all stands there. -/
  isMissing : γ → Bool

instance : GapText Empty := ⟨Empty.elim, Empty.elim⟩

instance : GapText Gap where
  text
    | .missing => "%!s(<nil>)"
    | .foreign f => f.text
  isMissing
    | .missing => true
    | .foreign _ => false

variable {γ : Type}

/-- How strongly the outermost operator of an expression binds. -/
def Expr.strength : Expr γ → Nat
  | .lessThan .. => 1
  | .add .. => 2
  | .multiply .. => 3
  | _ => 4

/-- The text, in brackets if `b`. -/
def bracketIf (b : Bool) (t : Text) : Text := if b then "(" ++ t ++ ")" else t

/-- A truth value as a program writes it. -/
def boolText : Bool → Text
  | true => "true"
  | false => "false"

section
variable [GapText γ]

/-- An expression in Simple syntax. -/
def Expr.print : Expr γ → Text
  | .variable name => name
  | .number n => Text.ofInt64 n
  | .boolean b => boolText b
  | .add l r => bracketIf (l.strength < 3) l.print ++ " + " ++ bracketIf (r.strength < 2) r.print
  | .multiply l r => bracketIf (l.strength < 4) l.print ++ " * " ++ bracketIf (r.strength < 3) r.print
  | .lessThan l r => bracketIf (l.strength < 2) l.print ++ " < " ++ bracketIf (r.strength < 1) r.print
  | .gap g => GapText.text g

/-- Whether the expression is a gap with nothing in it. -/
def Expr.isMissing : Expr γ → Bool
  | .gap g => GapText.isMissing g
  | _ => false

/-- Whether some operator of the expression has a missing operand. -/
def Expr.lacksOperand : Expr γ → Bool
  | .add l r | .multiply l r | .lessThan l r =>
    l.isMissing || l.lacksOperand || r.isMissing || r.lacksOperand
  | _ => false

/-- Why a missing operand cannot be printed. -/
def missingOperandText : Text := "runtime error: invalid memory address or nil pointer dereference"

/-- An expression as it stands inside a statement. -/
def Expr.printInside (e : Expr γ) : Text :=
  if e.lacksOperand then "%!s(PANIC=String method: " ++ missingOperandText ++ ")" else e.print

/-- A statement in Simple syntax. -/
def Stmt.print : Stmt γ → Text
  | .doNothing => "do-nothing"
  | .assign name e => name ++ " = " ++ e.printInside
  | .sequence a b => a.print ++ "; " ++ b.print
  | .branch c a b =>
    Text.concat ["if (", c.printInside, ") \x7b ", a.print, " \x7d else \x7b ", b.print, " \x7d"]
  | .loop c a => Text.concat ["while (", c.printInside, ") \x7b ", a.print, " \x7d"]
  | .gap g => GapText.text g

/-- A program in Simple syntax, unless it is missing or has an operator with a missing operand. -/
def Node.print? : Node γ → Option Text
  | .expr e => if e.isMissing || e.lacksOperand then none else some e.print
  | .stmt (.gap g) => if GapText.isMissing g then none else some (GapText.text g)
  | .stmt s => some s.print
  | .gap g => if GapText.isMissing g then none else some (GapText.text g)

end

/-- A program without gaps in Simple syntax. -/
def Node.print : Node Empty → Text
  | .expr e => e.print
  | .stmt s => s.print

/-- The name of the type of a program's outermost construct. -/
def Node.typeName : Node Gap → Text
  | .expr (.variable ..) => "parser.Variable"
  | .expr (.number ..) => "parser.Number"
  | .expr (.boolean ..) => "parser.Boolean"
  | .expr (.add ..) => "parser.Add"
  | .expr (.multiply ..) => "parser.Multiply"
  | .expr (.lessThan ..) => "parser.LessThan"
  | .expr (.gap g) => g.typeName
  | .stmt .doNothing => "parser.DoNothing"
  | .stmt (.assign ..) => "parser.Assign"
  | .stmt (.sequence ..) => "parser.Sequence"
  | .stmt (.branch ..) => "parser.If"
  | .stmt (.loop ..) => "parser.While"
  | .stmt (.gap g) => g.typeName
  | .gap g => g.typeName

/-- The line that shows a program with the name of its type, given the program's text. -/
def Node.dump (n : Node Gap) (text : Text) : Text := Text.concat ["(", n.typeName, ") ", text, "\n"]

end Denotation
