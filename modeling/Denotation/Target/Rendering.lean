import Denotation.Target.Dialect

/-!
# Rendering

The denotation of a program in a target language: a closure from an environment to a value for an
expression, and from an environment to an environment for a statement. Nothing is evaluated; every
part is rendered as a closure of its own and applied to the environment in place, so that the text of
any part can be lifted out and run by itself.

Only a program without gaps has a denotation. `Node.tryRender` renders a tree that may have gaps: it
goes from left to right and stops at the first gap, with an error and no text.
-/

namespace Denotation

variable (d : Dialect)

/-- The text of a closure, applied to the environment parameter. -/
def Dialect.applied (text : Text) : Text := d.apply text d.param

/-- The denotation of an expression. -/
def Expr.render : Expr Empty → Text
  | .variable name => d.function (d.lookup d.param name)
  | .number n => d.function (d.integer n)
  | .boolean b => d.function (d.boolean b)
  | .add l r => d.function (d.add (d.applied l.render) (d.applied r.render))
  | .multiply l r => d.function (d.multiply (d.applied l.render) (d.applied r.render))
  | .lessThan l r => d.function (d.lessThan (d.applied l.render) (d.applied r.render))

/-- The denotation of a statement. The second of two statements is applied to what the first returns,
and a loop is one construct of the target however often it runs. -/
def Stmt.render : Stmt Empty → Text
  | .doNothing => d.function d.param
  | .assign name e => d.function (d.replace d.param name (d.applied (e.render d)))
  | .sequence a b => d.function (d.apply b.render (d.applied a.render))
  | .branch c a b => d.conditional (d.applied (c.render d)) (d.applied a.render) (d.applied b.render)
  | .loop c a => d.loop (d.applied (c.render d)) (d.applied a.render)

/-- The denotation of a program. -/
def Node.render : Node Empty → Text
  | .expr e => e.render d
  | .stmt s => s.render d

/-- Where a gap stands in a tree. -/
inductive Slot where
  | expression
  | statement
  | program
  deriving DecidableEq, Repr

/-- A construct that has no denotation. -/
structure UnknownVariant where
  /-- What should stand in its place. -/
  slot : Slot
  /-- What does. -/
  gap : Gap
  deriving DecidableEq, Repr

/-- The text of the error. -/
def UnknownVariant.message (e : UnknownVariant) : Text :=
  "unknown node variant: " ++ (match e.slot with
    | .expression => ("expression " : Text)
    | .statement => "statement "
    | .program => "") ++ e.gap.typeName

/-- What a part of a tree is rendered to: a text, and an error if it could not be rendered. -/
structure Rendered where
  /-- The text. -/
  text : Text
  /-- What went wrong. -/
  error : Option UnknownVariant
  deriving DecidableEq, Repr

namespace Rendered

/-- A part that is rendered. -/
def done (text : Text) : Rendered := ⟨text, none⟩

/-- A part that has no denotation. -/
def failed (e : UnknownVariant) : Rendered := ⟨[], some e⟩

/-- Goes on with the text of a part, or returns early with its error. -/
def andThen (r : Rendered) (rest : Text → Rendered) : Rendered :=
  match r.error with
  | none => rest r.text
  | some e => failed e

end Rendered

/-- Renders a part and applies it to the environment parameter. -/
def Dialect.appliedPart (part : Rendered) : Rendered :=
  part.andThen fun text => .done (d.applied text)

/-- Renders both operands, the left one first, and combines them. -/
def Dialect.binary (op : Text → Text → Text) (left right : Rendered) : Rendered :=
  (d.appliedPart left).andThen fun l =>
  (d.appliedPart right).andThen fun r =>
  .done (d.function (op l r))

/-- Renders an expression that may have gaps. -/
def Expr.tryRender : Expr Gap → Rendered
  | .variable name => .done (d.function (d.lookup d.param name))
  | .number n => .done (d.function (d.integer n))
  | .boolean b => .done (d.function (d.boolean b))
  | .add l r => d.binary d.add l.tryRender r.tryRender
  | .multiply l r => d.binary d.multiply l.tryRender r.tryRender
  | .lessThan l r => d.binary d.lessThan l.tryRender r.tryRender
  | .gap g => .failed ⟨.expression, g⟩

/-- Renders a statement that may have gaps. -/
def Stmt.tryRender : Stmt Gap → Rendered
  | .doNothing => .done (d.function d.param)
  | .assign name e =>
    (d.appliedPart (e.tryRender d)).andThen fun value =>
    .done (d.function (d.replace d.param name value))
  | .sequence a b =>
    (d.appliedPart a.tryRender).andThen fun first =>
    b.tryRender.andThen fun second =>
    .done (d.function (d.apply second first))
  | .branch c a b =>
    (d.appliedPart (c.tryRender d)).andThen fun condition =>
    (d.appliedPart a.tryRender).andThen fun consequence =>
    (d.appliedPart b.tryRender).andThen fun alternative =>
    .done (d.conditional condition consequence alternative)
  | .loop c a =>
    (d.appliedPart (c.tryRender d)).andThen fun condition =>
    (d.appliedPart a.tryRender).andThen fun body =>
    .done (d.loop condition body)
  | .gap g => .failed ⟨.statement, g⟩

/-- Renders a tree that may have gaps. -/
def Node.tryRender : Node Gap → Rendered
  | .expr e => e.tryRender d
  | .stmt s => s.tryRender d
  | .gap g => .failed ⟨.program, g⟩

/-- Why a program could not be rendered. -/
inductive RenderError where
  | unsupported (e : UnsupportedTarget)
  | unknown (e : UnknownVariant)
  deriving DecidableEq, Repr

/-- The text of the error. -/
def RenderError.message : RenderError → Text
  | .unsupported e => e.message
  | .unknown e => e.message

/-- The denotation of a tree in the target of the given name. -/
def Node.renderFor (n : Node Gap) (targetName : Text) : Except RenderError Text := do
  let target ← (Target.ofName targetName).mapError .unsupported
  let rendered := n.tryRender target.dialect
  match rendered.error with
  | none => return rendered.text
  | some e => throw (.unknown e)

/-- The denotations of a tree for a list of target names, each with its name; the first failure is
the failure of all. -/
def Node.renderAll (n : Node Gap) (targetNames : List Text) :
    Except RenderError (List (Text × Text)) :=
  targetNames.mapM fun name => return (name, ← n.renderFor name)

end Denotation
