import Denotation.Machine.Value
import Denotation.Proofs.Gaps
import Denotation.Proofs.Writing

/-!
# Clojure renderings as forms

The Clojure rendering of a program is the text of a closure of the environment, whose body follows
the program construct by construct, and reading the rendering gives this closure. Names and literals
of the program stand in it as they are, so a name may hold any bytes and a literal may be any
integer.
-/

namespace Denotation

namespace Form

/-- A closure of the environment. -/
def closing (body : Form) : Form := .list [.symbol "fn", .vector [.symbol "e"], body]

/-- A body evaluated here and now: its closure applied to the environment. -/
def here (body : Form) : Form := .list [.closing body, .symbol "e"]

/-- A builtin called with two operands. -/
def call (b : Builtin) (l r : Form) : Form := .list [.symbol b.name, l, r]

/-- A condition that chooses between two forms. -/
def choice (c a b : Form) : Form := .list [.symbol "if", c, a, b]

end Form

/-- The body of the closure that renders an expression. -/
def Expr.body : Expr Empty → Form
  | .variable name => .call .get (.symbol "e") (.text name)
  | .number n => .int n
  | .boolean b => .bool b
  | .add l r => .call .add (.here l.body) (.here r.body)
  | .multiply l r => .call .multiply (.here l.body) (.here r.body)
  | .lessThan l r => .call .less (.here l.body) (.here r.body)

/-- The body of the closure that renders a statement. -/
def Stmt.body : Stmt Empty → Form
  | .doNothing => .symbol "e"
  | .assign name e => .list [.symbol Builtin.assoc.name, .symbol "e", .text name, .here e.body]
  | .sequence a b => .list [.closing b.body, .here a.body]
  | .branch c a b => .choice (.here c.body) (.here a.body) (.here b.body)
  | .loop c a => .choice (.here c.body) (.list [.symbol "recur", .here a.body]) (.symbol "e")

/-- The body of the closure that renders a program. -/
def Node.body : Node Empty → Form
  | .expr e => e.body
  | .stmt s => s.body

/-! ## The text of the forms -/

section
variable (f c a b : Form) (name : Text)

theorem write_closing : f.closing.write = Dialect.clojure.function f.write := rfl

theorem write_apply (g : Form) :
    (Form.list [f, g]).write = Dialect.clojure.apply f.write g.write := by
  simp [Form.write, Form.writeAll, Text.join, Text.concat, Dialect.clojure, Text.ofString,
    Text.ofChars, Text.ofChar]

theorem write_here : f.here.write = Dialect.clojure.applied f.closing.write :=
  write_apply f.closing (.symbol "e")

theorem write_call (op : Builtin) :
    (Form.call op a b).write = Text.concat ["(", op.name, " ", a.write, " ", b.write, ")"] := by
  simp [Form.call, Form.write, Form.writeAll, Text.join, Text.concat]

theorem write_add : (Form.call .add a b).write = Dialect.clojure.add a.write b.write :=
  write_call a b .add

theorem write_multiply :
    (Form.call .multiply a b).write = Dialect.clojure.multiply a.write b.write :=
  write_call a b .multiply

theorem write_lessThan : (Form.call .less a b).write = Dialect.clojure.lessThan a.write b.write :=
  write_call a b .less

theorem write_lookup :
    (Form.call .get (.symbol "e") (.text name)).write = Dialect.clojure.lookup "e" name :=
  write_call (.symbol "e") (.text name) .get

theorem write_replace :
    (Form.list [.symbol Builtin.assoc.name, .symbol "e", .text name, f]).write
      = Dialect.clojure.replace "e" name f.write := by
  simp [Form.write, Form.writeAll, Text.join, Text.concat, Dialect.clojure, Builtin.name,
    Text.ofString, Text.ofChars, Text.ofChar]

theorem write_conditional :
    (Form.choice c a b).closing.write = Dialect.clojure.conditional c.write a.write b.write := by
  simp [Form.choice, Form.closing, Form.write, Form.writeAll, Text.join, Text.concat,
    Dialect.clojure, Text.ofString, Text.ofChars, Text.ofChar]

theorem write_loop :
    (Form.choice c (.list [.symbol "recur", b]) (.symbol "e")).closing.write
      = Dialect.clojure.loop c.write b.write := by
  simp [Form.choice, Form.closing, Form.write, Form.writeAll, Text.join, Text.concat,
    Dialect.clojure, Text.ofString, Text.ofChars, Text.ofChar]

end

/-- The rendering of an expression is the text of a closure. -/
theorem Expr.render_eq_write (e : Expr Empty) : e.render .clojure = e.body.closing.write := by
  induction e with
  | «variable» name => rw [render, body, write_closing, write_lookup]; rfl
  | number n => rfl
  | boolean b => rfl
  | add l r ihl ihr => rw [render, body, write_closing, write_add, write_here, write_here, ihl, ihr]
  | multiply l r ihl ihr =>
    rw [render, body, write_closing, write_multiply, write_here, write_here, ihl, ihr]
  | lessThan l r ihl ihr =>
    rw [render, body, write_closing, write_lessThan, write_here, write_here, ihl, ihr]
  | gap g => exact g.elim

/-- The rendering of a statement is the text of a closure. -/
theorem Stmt.render_eq_write (s : Stmt Empty) : s.render .clojure = s.body.closing.write := by
  induction s with
  | doNothing => rfl
  | assign name e =>
    rw [render, body, write_closing, write_replace, write_here, e.render_eq_write]
    rfl
  | sequence a b iha ihb => rw [render, body, write_closing, write_apply, write_here, iha, ihb]
  | branch c a b iha ihb =>
    rw [render, body, write_conditional, write_here, write_here, write_here, c.render_eq_write, iha,
      ihb]
  | loop c a ih => rw [render, body, write_loop, write_here, write_here, c.render_eq_write, ih]
  | gap g => exact g.elim

/-! ## Reading them back -/

/-- A name that is spelled like a symbol, as can be tested. -/
theorem isSymbol_ofString (s : String) (hne : s.toList ≠ [])
    (hs : s.toList.all isAtomStart = true)
    (hf : atomForm s.toList = .symbol (Text.ofString s)) :
    IsSymbol (Text.ofString s) :=
  ⟨s.toList, rfl, isAtom_of_all _ hne hs, hf⟩

theorem isSymbol_fn : IsSymbol "fn" := isSymbol_ofString _ (by decide) (by decide) rfl

theorem isSymbol_e : IsSymbol "e" := isSymbol_ofString _ (by decide) (by decide) rfl

theorem isSymbol_if : IsSymbol "if" := isSymbol_ofString _ (by decide) (by decide) rfl

theorem isSymbol_recur : IsSymbol "recur" := isSymbol_ofString _ (by decide) (by decide) rfl

theorem isSymbol_builtin (b : Builtin) : IsSymbol b.name := by
  cases b <;> exact isSymbol_ofString _ (by decide) (by decide) rfl

theorem writable_closing {f : Form} (h : f.Writable) : f.closing.Writable :=
  ⟨isSymbol_fn, ⟨isSymbol_e, trivial⟩, h, trivial⟩

theorem writable_here {f : Form} (h : f.Writable) : f.here.Writable :=
  ⟨writable_closing h, isSymbol_e, trivial⟩

theorem Expr.body_writable (e : Expr Empty) : e.body.Writable := by
  induction e with
  | «variable» name => exact ⟨isSymbol_builtin .get, isSymbol_e, trivial, trivial⟩
  | number n => exact trivial
  | boolean b => exact trivial
  | add l r ihl ihr | multiply l r ihl ihr | lessThan l r ihl ihr =>
    exact ⟨isSymbol_builtin _, writable_here ihl, writable_here ihr, trivial⟩
  | gap g => exact g.elim

theorem Stmt.body_writable (s : Stmt Empty) : s.body.Writable := by
  induction s with
  | doNothing => exact isSymbol_e
  | assign name e =>
    exact ⟨isSymbol_builtin .assoc, isSymbol_e, trivial, writable_here e.body_writable, trivial⟩
  | sequence a b iha ihb => exact ⟨writable_closing ihb, writable_here iha, trivial⟩
  | branch c a b iha ihb =>
    exact ⟨isSymbol_if, writable_here c.body_writable, writable_here iha, writable_here ihb,
      trivial⟩
  | loop c a ih =>
    exact ⟨isSymbol_if, writable_here c.body_writable, ⟨isSymbol_recur, writable_here ih, trivial⟩,
      isSymbol_e, trivial⟩
  | gap g => exact g.elim

/-- Reading the rendering of a program gives a closure. -/
theorem Node.read_render (n : Node Empty) : Form.read (n.render .clojure) = .ok n.body.closing := by
  cases n with
  | expr e =>
    rw [render, e.render_eq_write, Form.read_write _ (writable_closing e.body_writable)]
    rfl
  | stmt s =>
    rw [render, s.render_eq_write, Form.read_write _ (writable_closing s.body_writable)]
    rfl
  | gap g => exact g.elim

/-! ## The form of a whole program

The same closures once more, each with its `fn` in place: what a reader of the rendering sees. -/

/-- The form of an expression, a function of the environment `e`. -/
def Expr.form : Expr Empty → Form
  | .variable name => .closing (.list [.symbol "get", .symbol "e", .text name])
  | .number n => .closing (.int n)
  | .boolean b => .closing (.bool b)
  | .add l r =>
    .closing (.list [.symbol "+", .list [l.form, .symbol "e"], .list [r.form, .symbol "e"]])
  | .multiply l r =>
    .closing (.list [.symbol "*", .list [l.form, .symbol "e"], .list [r.form, .symbol "e"]])
  | .lessThan l r =>
    .closing (.list [.symbol "<", .list [l.form, .symbol "e"], .list [r.form, .symbol "e"]])

/-- The form of a statement, a function of the environment `e`. -/
def Stmt.form : Stmt Empty → Form
  | .doNothing => .closing (.symbol "e")
  | .assign name e =>
    .closing (.list [.symbol "assoc", .symbol "e", .text name, .list [e.form, .symbol "e"]])
  | .sequence a b => .closing (.list [b.form, .list [a.form, .symbol "e"]])
  | .branch c a b =>
    .closing (.list [.symbol "if", .list [c.form, .symbol "e"], .list [a.form, .symbol "e"],
      .list [b.form, .symbol "e"]])
  | .loop c a =>
    .closing (.list [.symbol "if", .list [c.form, .symbol "e"],
      .list [.symbol "recur", .list [a.form, .symbol "e"]], .symbol "e"])

/-- The form of a program. -/
def Node.form : Node Empty → Form
  | .expr e => e.form
  | .stmt s => s.form

theorem Expr.form_eq_closing (e : Expr Empty) : e.form = e.body.closing := by
  induction e with
  | «variable» name => rfl
  | number n => rfl
  | boolean b => rfl
  | add l r ihl ihr | multiply l r ihl ihr | lessThan l r ihl ihr =>
    rw [form, body, ihl, ihr]
    rfl
  | gap g => exact g.elim

theorem Stmt.form_eq_closing (s : Stmt Empty) : s.form = s.body.closing := by
  induction s with
  | doNothing => rfl
  | assign name e =>
    rw [form, body, e.form_eq_closing]
    rfl
  | sequence a b iha ihb =>
    rw [form, body, iha, ihb]
    rfl
  | branch c a b iha ihb =>
    rw [form, body, c.form_eq_closing, iha, ihb]
    rfl
  | loop c a ih =>
    rw [form, body, c.form_eq_closing, ih]
    rfl
  | gap g => exact g.elim

theorem Node.form_eq_closing (n : Node Empty) : n.form = n.body.closing := by
  cases n with
  | expr e => exact e.form_eq_closing
  | stmt s => exact s.form_eq_closing
  | gap g => exact g.elim

/-- Every program has a Clojure rendering, and reading it gives the form of the program: names come
back byte for byte and literals as the integers they are. -/
theorem Node.read_renderFor_clojure (n : Node Empty) :
    ∃ text, (n.mapGaps Empty.elim).renderFor Target.clojure.name = .ok text ∧
      Form.read text = .ok n.form := by
  refine ⟨n.render .clojure, n.renderFor_mapGaps .clojure, ?_⟩
  rw [n.form_eq_closing]
  exact n.read_render

end Denotation
