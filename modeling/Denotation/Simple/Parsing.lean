import Denotation.Simple.Printing
import Denotation.Simple.Scanner

/-!
# Parsing

A recursive descent parser over the results of scanning. It reads one result ahead and no further: a
failure holds the results after the one it stopped at, which the parser has not looked at. Operators
come in three tiers, `<` the loosest and `*` the tightest, and nest to the right like the statements
of a sequence.

Each function returns what is left with the fact that it is shorter than what it was given; this is
what makes the recursion end.
-/

namespace Denotation

/-- The grammar rule that a whole source must match. -/
inductive Root where
  | statement
  | expression
  deriving DecidableEq, Repr

/-- The name of a root. -/
def Root.name : Root → Text
  | .statement => "statement"
  | .expression => "expression"

/-- The words that are no variable names. -/
inductive Keyword where
  | whileWord
  | ifWord
  | elseWord
  | trueWord
  | falseWord
  | doNothing
  deriving DecidableEq, Repr

/-- The spelling of a keyword. -/
def Keyword.text : Keyword → Text
  | .whileWord => "while"
  | .ifWord => "if"
  | .elseWord => "else"
  | .trueWord => "true"
  | .falseWord => "false"
  | .doNothing => "do-nothing"

/-- The keyword that a text spells. -/
def Keyword.ofText? (t : Text) : Option Keyword :=
  [.whileWord, .ifWord, .elseWord, .trueWord, .falseWord, .doNothing].find? fun k => k.text == t

/-- What the grammar wanted where it met something else. -/
inductive Wanted where
  | statement
  | expression
  | variableName
  | keyword (k : Keyword)
  | kind (k : TokenKind)
  deriving DecidableEq, Repr

/-- What was wanted, as messages show it. -/
def Wanted.display : Wanted → Text
  | .statement => "statement"
  | .expression => "expression"
  | .variableName => "variable name"
  | .keyword k => k.text.quote
  | .kind k => k.display

/-- Why a source is no program. -/
inductive ParseError where
  /-- A token could not be read. -/
  | scan (e : ScanError)
  /-- The token is not the one that the grammar wants. -/
  | unexpected (token : Token) (wanted : Wanted)
  /-- The token is a number that is no signed 64-bit integer. -/
  | badNumber (token : Token)
  /-- The results were cut off before the end of input. -/
  | cutOff
  deriving DecidableEq, Repr

/-- A token as the message about it shows it. -/
def Token.given (t : Token) : Text :=
  if t.value.isEmpty then t.kind.display else t.kind.display ++ " " ++ t.value.quote

/-- The text of a parse error. -/
def ParseError.message : ParseError → Text
  | .scan e => e.message
  | .unexpected t wanted =>
    Text.concat ["token not expected: expected: ", wanted.display, ", given ", t.given, " at ",
      t.location.display]
  | .badNumber t => Text.concat ["number out of range: ", t.value, " at ", t.location.display]
  | .cutOff => "unexpected end of results"

/-- A failed parse. -/
structure ParseFailure where
  /-- What is wrong with the result that the parser stopped at. -/
  error : ParseError
  /-- The results after that one, which the parser did not look at. -/
  rest : List ScanResult

/-- What was parsed from the start of `s`. -/
structure Parsed (α : Type) (s : List ScanResult) where
  /-- The construct. -/
  value : α
  /-- The results after it. -/
  rest : List ScanResult
  /-- At least one result was taken. -/
  shorter : rest.length < s.length

/-- The outcome of parsing a construct at the start of `s`. -/
abbrev ParseOutcome (α : Type) (s : List ScanResult) := Except ParseFailure (Parsed α s)

/-- The token at the start of `s`. -/
def anyToken : (s : List ScanResult) → ParseOutcome Token s
  | [] => .error ⟨.cutOff, []⟩
  | .error e :: rest => .error ⟨.scan e, rest⟩
  | .ok t :: rest => .ok ⟨t, rest, by simp⟩

/-- A token of the given kind. -/
def expectKind (kind : TokenKind) (s : List ScanResult) : ParseOutcome Token s := do
  let p ← anyToken s
  if p.value.kind = kind then return p else throw ⟨.unexpected p.value (.kind kind), p.rest⟩

/-- The given keyword. -/
def expectKeyword (k : Keyword) (s : List ScanResult) : ParseOutcome Unit s := do
  let p ← expectKind .name s
  if p.value.value = k.text then return ⟨(), p.rest, p.shorter⟩
  else throw ⟨.unexpected p.value (.keyword k), p.rest⟩

/-- The tiers of binary operators. -/
inductive Tier where
  | less
  | plus
  | star
  deriving DecidableEq, Repr

/-- The operator of a tier. -/
def Tier.kind : Tier → TokenKind
  | .less => .less
  | .plus => .plus
  | .star => .star

/-- The tier that binds tighter. -/
def Tier.tighter? : Tier → Option Tier
  | .less => some .plus
  | .plus => some .star
  | .star => none

/-- How many tiers bind at most as loosely. -/
def Tier.rank : Tier → Nat
  | .less => 3
  | .plus => 2
  | .star => 1

/-- The expression that the operator of a tier makes of its operands. -/
def Tier.combine : Tier → Expr Empty → Expr Empty → Expr Empty
  | .less => .lessThan
  | .plus => .add
  | .star => .multiply

theorem Tier.rank_tighter {t u : Tier} (h : t.tighter? = some u) : u.rank < t.rank := by
  cases t <;> cases h <;> decide

/-- The expression that a single token stands for. -/
def atom (t : Token) : Except ParseError (Expr Empty) :=
  match t.kind with
  | .number =>
    match Text.toInt64? t.value with
    | some n => .ok (.number n)
    | none => .error (.badNumber t)
  | .name =>
    match Keyword.ofText? t.value with
    | some .trueWord => .ok (.boolean true)
    | some .falseWord => .ok (.boolean false)
    | some _ => .error (.unexpected t .expression)
    | none => .ok (.variable t.value)
  | _ => .error (.unexpected t .expression)

mutual

/-- An expression of the given tier or a tighter one. -/
def parseTier (tier : Tier) (s : List ScanResult) : ParseOutcome (Expr Empty) s := do
  let left ← match h : tier.tighter? with
    | some tighter => parseTier tighter s
    | none => parseTerm s
  match h : left.rest with
  | .ok t :: more =>
    if t.kind = tier.kind then
      have : more.length < s.length := by have := left.shorter; simp [h] at this; omega
      let right ← parseTier tier more
      return ⟨tier.combine left.value right.value, right.rest, by have := right.shorter; omega⟩
    else return left
  | .error e :: more => throw ⟨.scan e, more⟩
  | [] => throw ⟨.cutOff, []⟩
termination_by (s.length, tier.rank)
decreasing_by
  · exact Prod.Lex.left _ _ this
  · exact Prod.Lex.right _ (Tier.rank_tighter h)
  · exact Prod.Lex.right _ (by cases tier <;> decide)

/-- A bracketed expression, a literal or a variable. -/
def parseTerm (s : List ScanResult) : ParseOutcome (Expr Empty) s := do
  let first ← anyToken s
  if first.value.kind = .parenOpen then
    have := first.shorter
    let inner ← parseTier .less first.rest
    let close ← expectKind .parenClose inner.rest
    return ⟨inner.value, close.rest, by have := inner.shorter; have := close.shorter; omega⟩
  else
    match atom first.value with
    | .ok e => return ⟨e, first.rest, first.shorter⟩
    | .error e => throw ⟨e, first.rest⟩
termination_by (s.length, 0)
decreasing_by
  exact Prod.Lex.left _ _ this

end

/-- An expression. -/
def parseExpression (s : List ScanResult) : ParseOutcome (Expr Empty) s := parseTier .less s

/-- An expression in brackets, as it follows `while` and `if`. -/
def parseCondition (s : List ScanResult) : ParseOutcome (Expr Empty) s := do
  let opened ← expectKind .parenOpen s
  let inner ← parseExpression opened.rest
  let closed ← expectKind .parenClose inner.rest
  return ⟨inner.value, closed.rest, by
    have := opened.shorter; have := inner.shorter; have := closed.shorter; omega⟩

/-- An assignment to a variable. -/
def parseAssign (s : List ScanResult) : ParseOutcome (Stmt Empty) s := do
  let name ← expectKind .name s
  if (Keyword.ofText? name.value.value).isSome then
    throw ⟨.unexpected name.value .variableName, name.rest⟩
  let sign ← expectKind .equals name.rest
  let value ← parseExpression sign.rest
  return ⟨.assign name.value.value value.value, value.rest, by
    have := name.shorter; have := sign.shorter; have := value.shorter; omega⟩

mutual

/-- One or more statements with semicolons between them. -/
def parseStatement (s : List ScanResult) : ParseOutcome (Stmt Empty) s := do
  let first ← parseSequenced s
  match h : first.rest with
  | .ok t :: more =>
    if t.kind = .semicolon then
      have : more.length < s.length := by have := first.shorter; simp [h] at this; omega
      let second ← parseStatement more
      return ⟨.sequence first.value second.value, second.rest, by have := second.shorter; omega⟩
    else return first
  | .error e :: more => throw ⟨.scan e, more⟩
  | [] => throw ⟨.cutOff, []⟩
termination_by (s.length, 1)
decreasing_by
  · exact Prod.Lex.right _ (by decide)
  · exact Prod.Lex.left _ _ this

/-- A statement that is no sequence. -/
def parseSequenced (s : List ScanResult) : ParseOutcome (Stmt Empty) s := do
  let first ← anyToken s
  if first.value.kind ≠ .name then throw ⟨.unexpected first.value .statement, first.rest⟩
  match Keyword.ofText? first.value.value with
  | some .whileWord =>
    let condition ← parseCondition first.rest
    have : condition.rest.length < s.length := by
      have := first.shorter; have := condition.shorter; omega
    let body ← parseBlock condition.rest
    return ⟨.loop condition.value body.value, body.rest, by have := body.shorter; omega⟩
  | some .ifWord =>
    let condition ← parseCondition first.rest
    have : condition.rest.length < s.length := by
      have := first.shorter; have := condition.shorter; omega
    let consequence ← parseBlock condition.rest
    let otherwise ← expectKeyword .elseWord consequence.rest
    have : otherwise.rest.length < s.length := by
      have := consequence.shorter; have := otherwise.shorter; omega
    let alternative ← parseBlock otherwise.rest
    return ⟨.branch condition.value consequence.value alternative.value, alternative.rest, by
      have := alternative.shorter; omega⟩
  | some .doNothing => return ⟨.doNothing, first.rest, first.shorter⟩
  | _ => parseAssign s
termination_by (s.length, 0)
decreasing_by
  all_goals exact Prod.Lex.left _ _ this

/-- A statement in braces. -/
def parseBlock (s : List ScanResult) : ParseOutcome (Stmt Empty) s := do
  let opened ← expectKind .braceOpen s
  have := opened.shorter
  let inner ← parseStatement opened.rest
  let closed ← expectKind .braceClose inner.rest
  return ⟨inner.value, closed.rest, by have := inner.shorter; have := closed.shorter; omega⟩
termination_by (s.length, 0)
decreasing_by
  exact Prod.Lex.left _ _ this

end

/-- A construct of the root's grammar. -/
def parseRoot (root : Root) (s : List ScanResult) : ParseOutcome (Node Empty) s :=
  match root with
  | .statement => do let p ← parseStatement s; return ⟨.stmt p.value, p.rest, p.shorter⟩
  | .expression => do let p ← parseExpression s; return ⟨.expr p.value, p.rest, p.shorter⟩

/-- The program that the results of scanning spell from their first to the end of input. -/
def parseResults (root : Root) (s : List ScanResult) : Except ParseFailure (Node Empty) := do
  let p ← parseRoot root s
  let _ ← expectKind .ending p.rest
  return p.value

/-- The program that a scanner reads. -/
def Scanner.parse (root : Root) (s : Scanner) : Except ParseFailure (Node Empty) :=
  parseResults root s.stream

/-- The program that a source spells. -/
def parse (root : Root) (source : Text) : Except ParseError (Node Empty) :=
  ((Scanner.ofText source [] .complete).parse root).mapError ParseFailure.error

/-- The program that a source spells as a statement or else as an expression. When it is neither, the
error is the one that it has as a statement. -/
def parseAny (source : Text) : Except ParseError (Node Empty) :=
  match parse .statement source with
  | .ok n => .ok n
  | .error e =>
    match parse .expression source with
    | .ok n => .ok n
    | .error _ => .error e

end Denotation
