import Denotation.Simple.Parsing
import Mathlib.Tactic

/-!
# The grammar

The grammar of Simple as a relation between lists of tokens and trees. A rule of the grammar looks
at the kinds and texts of tokens, never at their places.
-/

namespace Denotation

/-- The text is no name for a variable. -/
def Reserved (t : Text) : Prop := ∃ k : Keyword, k.text = t

/-- The token is a keyword. -/
def Token.IsWord (t : Token) (k : Keyword) : Prop := t.kind = .name ∧ t.value = k.text

/-- The symbols of the grammar that stand for expressions. -/
inductive Level where
  | expression
  | add
  | multiply
  | term
  deriving DecidableEq, Repr

/-- The tokens derive the expression from the symbol. -/
inductive Level.Derives : Level → List Token → Expr Empty → Prop where
  /-- `expression = add "<" expression` -/
  | lessThan {ts us : List Token} {op : Token} {l r : Expr Empty} (hl : Derives .add ts l)
      (ho : op.kind = .less) (hr : Derives .expression us r) :
      Derives .expression (ts ++ op :: us) (.lessThan l r)
  /-- `expression = add` -/
  | ofAdd {ts : List Token} {e : Expr Empty} (h : Derives .add ts e) : Derives .expression ts e
  /-- `add = multiply "+" add` -/
  | add {ts us : List Token} {op : Token} {l r : Expr Empty} (hl : Derives .multiply ts l)
      (ho : op.kind = .plus) (hr : Derives .add us r) : Derives .add (ts ++ op :: us) (.add l r)
  /-- `add = multiply` -/
  | ofMultiply {ts : List Token} {e : Expr Empty} (h : Derives .multiply ts e) : Derives .add ts e
  /-- `multiply = term "*" multiply` -/
  | multiply {ts us : List Token} {op : Token} {l r : Expr Empty} (hl : Derives .term ts l)
      (ho : op.kind = .star) (hr : Derives .multiply us r) :
      Derives .multiply (ts ++ op :: us) (.multiply l r)
  /-- `multiply = term` -/
  | ofTerm {ts : List Token} {e : Expr Empty} (h : Derives .term ts e) : Derives .multiply ts e
  /-- `term = "(" expression ")"` -/
  | brackets {ts : List Token} {left right : Token} {e : Expr Empty} (hl : left.kind = .parenOpen)
      (h : Derives .expression ts e) (hr : right.kind = .parenClose) :
      Derives .term (left :: ts ++ [right]) e
  /-- `term = number`, if the number is a signed 64-bit integer -/
  | number {t : Token} {n : Int64} (hk : t.kind = .number) (hn : Text.toInt64? t.value = some n) :
      Derives .term [t] (.number n)
  /-- `term = "true"` -/
  | true {t : Token} (h : t.IsWord .trueWord) : Derives .term [t] (.boolean true)
  /-- `term = "false"` -/
  | false {t : Token} (h : t.IsWord .falseWord) : Derives .term [t] (.boolean false)
  /-- `term = name` -/
  | name {t : Token} (hk : t.kind = .name) (hr : ¬ Reserved t.value) :
      Derives .term [t] (.variable t.value)

/-- The symbols of the grammar that stand for statements. -/
inductive Grade where
  | statement
  | sequenced
  deriving DecidableEq, Repr

/-- The tokens derive the statement from the symbol. -/
inductive Grade.Derives : Grade → List Token → Stmt Empty → Prop where
  /-- `statement = sequenced ";" statement` -/
  | sequence {ts us : List Token} {op : Token} {a b : Stmt Empty} (ha : Derives .sequenced ts a)
      (ho : op.kind = .semicolon) (hb : Derives .statement us b) :
      Derives .statement (ts ++ op :: us) (.sequence a b)
  /-- `statement = sequenced` -/
  | single {ts : List Token} {a : Stmt Empty} (h : Derives .sequenced ts a) :
      Derives .statement ts a
  /-- `sequenced = "while" "(" expression ")" "{" statement "}"` -/
  | loop {word left right opening closing : Token} {ts us : List Token} {c : Expr Empty}
      {a : Stmt Empty} (hw : word.IsWord .whileWord) (hl : left.kind = .parenOpen)
      (hc : Level.expression.Derives ts c) (hr : right.kind = .parenClose)
      (ho : opening.kind = .braceOpen) (ha : Derives .statement us a)
      (hcl : closing.kind = .braceClose) :
      Derives .sequenced (word :: left :: ts ++ right :: opening :: us ++ [closing]) (.loop c a)
  /-- `sequenced = "if" "(" expression ")" "{" statement "}" "else" "{" statement "}"` -/
  | branch {word left right opening closing otherwise opening' closing' : Token}
      {ts us vs : List Token} {c : Expr Empty} {a b : Stmt Empty} (hw : word.IsWord .ifWord)
      (hl : left.kind = .parenOpen) (hc : Level.expression.Derives ts c)
      (hr : right.kind = .parenClose) (ho : opening.kind = .braceOpen)
      (ha : Derives .statement us a) (hcl : closing.kind = .braceClose)
      (he : otherwise.IsWord .elseWord) (ho' : opening'.kind = .braceOpen)
      (hb : Derives .statement vs b) (hcl' : closing'.kind = .braceClose) :
      Derives .sequenced
        (word :: left :: ts ++ right :: opening :: us ++ closing :: otherwise :: opening' :: vs
          ++ [closing']) (.branch c a b)
  /-- `sequenced = name "=" expression` -/
  | assign {name sign : Token} {ts : List Token} {e : Expr Empty} (hk : name.kind = .name)
      (hr : ¬ Reserved name.value) (hs : sign.kind = .equals) (he : Level.expression.Derives ts e) :
      Derives .sequenced (name :: sign :: ts) (.assign name.value e)
  /-- `sequenced = "do-nothing"` -/
  | doNothing {word : Token} (hw : word.IsWord .doNothing) : Derives .sequenced [word] .doNothing

/-- The tokens derive the program from the root. -/
inductive Root.Derives : Root → List Token → Node Empty → Prop where
  | statement {ts : List Token} {s : Stmt Empty} (h : Grade.statement.Derives ts s) :
      Derives .statement ts (.stmt s)
  | expression {ts : List Token} {e : Expr Empty} (h : Level.expression.Derives ts e) :
      Derives .expression ts (.expr e)

/-! ## Keywords -/

theorem ofText?_eq_some_iff {t : Text} {k : Keyword} : Keyword.ofText? t = some k ↔ k.text = t := by
  constructor
  · intro h
    exact beq_iff_eq.mp (List.find?_some (p := fun k : Keyword => k.text == t) h)
  · rintro rfl
    cases k <;> rfl

theorem ofText?_eq_none_iff {t : Text} : Keyword.ofText? t = none ↔ ¬ Reserved t := by
  rw [← not_iff_not, not_not, ← ne_eq, Option.ne_none_iff_exists']
  simp only [ofText?_eq_some_iff]
  rfl

theorem isSome_ofText?_iff {t : Text} : (Keyword.ofText? t).isSome = true ↔ Reserved t := by
  rw [Option.isSome_iff_ne_none, ne_eq, ofText?_eq_none_iff, not_not]

end Denotation
