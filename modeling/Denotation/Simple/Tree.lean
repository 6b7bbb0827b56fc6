import Denotation.Text.Basic

/-!
# Programs

A Simple program is an expression or a statement. Trees carry a type of *gaps*, what may stand where
a construct of the language is missing: a program that was parsed has none, so its gaps are of type
`Empty`; a tree that is put together by hand may have gaps of type `Gap`.
-/

namespace Denotation

/-- An expression, with gaps from `γ`. -/
inductive Expr (γ : Type) where
  /-- The value of a variable. -/
  | variable (name : Text)
  /-- A literal integer. -/
  | number (value : Int64)
  /-- A literal truth value. -/
  | boolean (value : Bool)
  /-- The sum of two integers. -/
  | add (left right : Expr γ)
  /-- The product of two integers. -/
  | multiply (left right : Expr γ)
  /-- Whether one integer is less than another. -/
  | lessThan (left right : Expr γ)
  /-- No expression of the language. -/
  | gap (g : γ)
  deriving DecidableEq, Repr

/-- A statement, with gaps from `γ`. -/
inductive Stmt (γ : Type) where
  /-- Leaves the environment as it is. -/
  | doNothing
  /-- Binds a variable to the value of an expression. -/
  | assign (name : Text) (value : Expr γ)
  /-- Runs one statement, then another in the environment it leaves. -/
  | sequence (first second : Stmt γ)
  /-- Runs one of two statements. -/
  | branch (condition : Expr γ) (consequence alternative : Stmt γ)
  /-- Runs a statement as long as a condition holds. -/
  | loop (condition : Expr γ) (body : Stmt γ)
  /-- No statement of the language. -/
  | gap (g : γ)
  deriving DecidableEq, Repr

/-- A program: an expression, a statement, or a gap that is neither. -/
inductive Node (γ : Type) where
  | expr (e : Expr γ)
  | stmt (s : Stmt γ)
  | gap (g : γ)
  deriving DecidableEq, Repr

/-- A construct that the language does not know. -/
structure Foreign where
  /-- The name of its type. -/
  typeName : Text
  /-- The text it prints as. -/
  text : Text
  deriving DecidableEq, Repr

/-- What may stand in a tree where a construct of the language should. -/
inductive Gap where
  /-- Nothing at all. -/
  | missing
  /-- A construct that the language does not know. -/
  | foreign (f : Foreign)
  deriving DecidableEq, Repr

/-- The name of the type of what fills a gap. -/
def Gap.typeName : Gap → Text
  | .missing => "<nil>"
  | .foreign f => f.typeName

/-- The tree with every gap replaced. -/
def Expr.mapGaps {γ δ : Type} (f : γ → δ) : Expr γ → Expr δ
  | .variable name => .variable name
  | .number n => .number n
  | .boolean b => .boolean b
  | .add l r => .add (l.mapGaps f) (r.mapGaps f)
  | .multiply l r => .multiply (l.mapGaps f) (r.mapGaps f)
  | .lessThan l r => .lessThan (l.mapGaps f) (r.mapGaps f)
  | .gap g => .gap (f g)

/-- The tree with every gap replaced. -/
def Stmt.mapGaps {γ δ : Type} (f : γ → δ) : Stmt γ → Stmt δ
  | .doNothing => .doNothing
  | .assign name e => .assign name (e.mapGaps f)
  | .sequence a b => .sequence (a.mapGaps f) (b.mapGaps f)
  | .branch c a b => .branch (c.mapGaps f) (a.mapGaps f) (b.mapGaps f)
  | .loop c a => .loop (c.mapGaps f) (a.mapGaps f)
  | .gap g => .gap (f g)

/-- The tree with every gap replaced. -/
def Node.mapGaps {γ δ : Type} (f : γ → δ) : Node γ → Node δ
  | .expr e => .expr (e.mapGaps f)
  | .stmt s => .stmt (s.mapGaps f)
  | .gap g => .gap (f g)

end Denotation
