import Denotation.Proofs.Descent
import Denotation.Proofs.Parsing

/-!
# The parser as a computation that asks for tokens

Every parsing function is given as a tree of questions, with a bound on its depth. The tree asks a
lexer as a parser does that has no list of results: it takes a token to compare it, and looks at one
where it has to choose. Answered by a list of results it gives what the parsing function gives, if
the bound is high enough (`Conducts`).
-/

namespace Denotation

open Descent

/-! ## The trees -/

/-- Whether the token is of the given kind. -/
def judgeKind (k : TokenKind) (t : Token) : Except ParseError Token :=
  if t.kind = k then .ok t else .error (.unexpected t (.kind k))

/-- Whether the token is the given keyword. -/
def judgeKeyword (k : Keyword) (t : Token) : Except ParseError Unit :=
  if t.kind = .name then
    if t.value = k.text then .ok () else .error (.unexpected t (.keyword k))
  else .error (.unexpected t (.kind .name))

/-- The variable that the token names. -/
def judgeVariable (t : Token) : Except ParseError Text :=
  if t.kind = .name then
    if (Keyword.ofText? t.value).isSome then .error (.unexpected t .variableName) else .ok t.value
  else .error (.unexpected t (.kind .name))

namespace Descent

variable {α : Type}

/-- Asks for an operand and, if the token after it is of the given kind, for what follows. -/
def chain (k : TokenKind) (combine : α → α → α) (operand again : Descent α) : Descent α := do
  let left ← operand
  .peek fun t =>
    if t.kind = k then .consume do
      let right ← again
      return combine left right
    else .done left

/-- Asks for a construct and a token of the given kind after it. -/
def closed (c : TokenKind) (inner : Descent α) : Descent α := do
  let v ← inner
  let _ ← expect (judgeKind c)
  return v

/-- Asks for a construct between two tokens of the given kinds. -/
def enclosed (o c : TokenKind) (inner : Descent α) : Descent α := do
  let _ ← expect (judgeKind o)
  closed c inner

end Descent

/-- Asks for an expression of the symbol. -/
def Level.descent : Nat → Level → Descent (Expr Empty)
  | 0, _ => .exhausted
  | n + 1, .expression =>
    .chain .less .lessThan (Level.descent n .add) (Level.descent n .expression)
  | n + 1, .add => .chain .plus .add (Level.descent n .multiply) (Level.descent n .add)
  | n + 1, .multiply => .chain .star .multiply (Level.descent n .term) (Level.descent n .multiply)
  | n + 1, .term => .next fun t =>
    if t.kind = .parenOpen then .closed .parenClose (Level.descent n .expression)
    else .ofExcept (atom t)

/-- Asks for an assignment. -/
def assignDescent (value : Descent (Expr Empty)) : Descent (Stmt Empty) := do
  let name ← expect judgeVariable
  let _ ← expect (judgeKind .equals)
  let e ← value
  return .assign name e

/-- Asks for a loop. -/
def loopDescent (condition : Descent (Expr Empty)) (block : Descent (Stmt Empty)) :
    Descent (Stmt Empty) := do
  expect (judgeKeyword .whileWord)
  let c ← condition
  let body ← block
  return .loop c body

/-- Asks for a branch. -/
def branchDescent (condition : Descent (Expr Empty)) (block : Descent (Stmt Empty)) :
    Descent (Stmt Empty) := do
  expect (judgeKeyword .ifWord)
  let c ← condition
  let yes ← block
  expect (judgeKeyword .elseWord)
  let no ← block
  return .branch c yes no

/-- Asks for a statement that is no sequence. The first token tells which. -/
def sequencedDescent (condition : Descent (Expr Empty)) (block : Descent (Stmt Empty))
    (value : Descent (Expr Empty)) : Descent (Stmt Empty) :=
  .peek fun t =>
    if t.kind ≠ .name then .fail (.unexpected t .statement)
    else
      match Keyword.ofText? t.value with
      | some .whileWord => loopDescent condition block
      | some .ifWord => branchDescent condition block
      | some .doNothing => .consume (.done .doNothing)
      | _ => assignDescent value

/-- Asks for a statement of the symbol. -/
def Grade.descent : Nat → Grade → Descent (Stmt Empty)
  | 0, _ => .exhausted
  | n + 1, .statement =>
    .chain .semicolon .sequence (Grade.descent n .sequenced) (Grade.descent n .statement)
  | n + 1, .sequenced =>
    sequencedDescent (.enclosed .parenOpen .parenClose (Level.expression.descent n))
      (.enclosed .braceOpen .braceClose (Grade.descent n .statement)) (Level.expression.descent n)

/-- Asks for a program. -/
def Root.descent (n : Nat) : Root → Descent (Node Empty)
  | .statement => do return .stmt (← Grade.statement.descent n)
  | .expression => do return .expr (← Level.expression.descent n)

/-- Asks for a program and the end of input after it. -/
def programDescent (n : Nat) (root : Root) : Descent (Node Empty) := closed .ending (root.descent n)

/-! ## The trees conduct the parsing functions -/

/-- A parsing function and the answers to a computation by a list of results end alike. -/
inductive Concurs {α : Type} {s : List ScanResult} : ParseOutcome α s → Standing α → Prop where
  | done {v : α} {rest unread : List ScanResult} {held : Option Token} {h : rest.length < s.length}
      (hrest : ahead held unread = rest) : Concurs (.ok ⟨v, rest, h⟩) (.done v held unread)
  | stopped {e : ParseError} {rest : List ScanResult} : Concurs (.error ⟨e, rest⟩) (.stopped e rest)

/-- The computation does what the parsing function does in front of the results. -/
def Conducts {α : Type} (parse : (s : List ScanResult) → ParseOutcome α s) (d : Descent α)
    (s : List ScanResult) : Prop :=
  ∀ held unread, ahead held unread = s → Concurs (parse s) (d.read held unread)

section
variable {α β : Type} {s s' unread rest : List ScanResult} {held : Option Token} {d d' : Descent α}
  {f : α → Descent β} {k o c : TokenKind} {combine : α → α → α} {t : Token}
  {operand again inner : (s : List ScanResult) → ParseOutcome α s}

theorem Concurs.bind {x : ParseOutcome α s'} {g : Parsed α s' → ParseOutcome β s}
    (hx : Concurs x (d.read held unread))
    (hg : ∀ p held unread, ahead held unread = p.rest →
      Concurs (g p) ((f p.value).read held unread)) :
    Concurs (x >>= g) ((d.bind f).read held unread) := by
  rw [read_bind]
  generalize d.read held unread = outcome at hx
  cases hx with
  | done hrest => exact hg _ _ _ hrest
  | stopped => exact .stopped

/-- Asking for a token is to take the next result. -/
theorem concurs_ask {keep : Bool} {q : Token → Descent β} {g : Parsed Token s → ParseOutcome β s'}
    (h : ahead held unread = s)
    (hg : ∀ t rest hlt, s = .ok t :: rest →
      Concurs (g ⟨t, rest, hlt⟩) ((q t).read (kept keep t) rest)) :
    Concurs (anyToken s >>= g) ((ask keep q).read held unread) := by
  rcases s with _ | ⟨err | t, rest⟩
  · rw [read_ask_nil h]
    exact .stopped
  · rw [read_ask_error h]
    exact .stopped
  · rw [read_ask_ok h]
    exact hg t rest (by simp) rfl

theorem conducts_expectKind (k : TokenKind) (s : List ScanResult) :
    Conducts (expectKind k) (expect (judgeKind k)) s := by
  intro held unread h
  refine concurs_ask h fun t rest hlt hs => ?_
  unfold judgeKind
  by_cases hk : t.kind = k
  · simp only [hk, if_true]
    exact .done rfl
  · simp only [hk, if_false]
    exact .stopped

theorem conducts_expectKeyword (k : Keyword) (s : List ScanResult) :
    Conducts (expectKeyword k) (expect (judgeKeyword k)) s := by
  intro held unread h
  unfold expectKeyword expectKind
  rw [bind_assoc]
  refine concurs_ask h fun t rest hlt hs => ?_
  unfold judgeKeyword
  by_cases hk : t.kind = .name
  · simp only [hk, if_true, pure_bind]
    by_cases hv : t.value = k.text
    · simp only [hv, if_true]
      exact .done rfl
    · simp only [hv, if_false]
      exact .stopped
  · simp only [hk, if_false]
    exact .stopped

theorem conducts_chain (hoperand : Conducts operand d s)
    (hagain : ∀ s' : List ScanResult, s'.length < s.length → Conducts again d' s') :
    Conducts (chain k combine operand again) (Descent.chain k combine d d') s := by
  intro held unread h
  refine (hoperand held unread h).bind fun p held unread hp => ?_
  obtain ⟨l, rest, hlt⟩ := p
  rcases rest with _ | ⟨err | t, more⟩
  · rw [peek, read_ask_nil hp]
    exact .stopped
  · rw [peek, read_ask_error hp]
    exact .stopped
  · rw [peek, read_ask_ok hp]
    simp only
    by_cases hk : t.kind = k
    · rw [if_pos hk, if_pos hk]
      have hmore : more.length < s.length := Nat.lt_trans (Nat.lt_succ_self _) hlt
      exact (hagain more hmore none more rfl).bind fun q held unread hq => .done hq
    · rw [if_neg hk, if_neg hk]
      exact .done rfl

theorem conducts_enclosed
    (hinner : ∀ s' : List ScanResult, s'.length < s.length → Conducts inner d s') :
    Conducts (enclosed o c inner) (Descent.enclosed o c d) s := by
  intro held unread h
  refine (conducts_expectKind o s held unread h).bind fun opened held unread hopened => ?_
  refine (hinner opened.rest opened.shorter held unread hopened).bind fun p held unread hp => ?_
  exact (conducts_expectKind c p.rest held unread hp).bind fun q held unread hq => .done hq

end

/-- A bound on the depth that suffices for expressions of the symbol in front of no results. -/
def Level.height : Level → Nat
  | .expression => 4
  | .add => 3
  | .multiply => 2
  | .term => 1

theorem conducts_term {n : Nat} {s : List ScanResult}
    (ih : ∀ s' : List ScanResult, s'.length < s.length →
      Conducts Level.expression.parse (Level.expression.descent n) s') :
    Conducts Level.term.parse (Level.term.descent (n + 1)) s := by
  intro held unread h
  rw [Level.parse, parseTerm]
  refine concurs_ask h fun t rest hlt hs => ?_
  simp only
  by_cases hk : t.kind = .parenOpen
  · rw [if_pos hk, if_pos hk]
    refine (ih rest hlt none rest rfl).bind fun p held unread hp => ?_
    exact (conducts_expectKind .parenClose p.rest held unread hp).bind
      fun q held unread hq => .done hq
  · rw [if_neg hk, if_neg hk]
    cases atom t with
    | ok e => exact .done rfl
    | error e => exact .stopped

theorem Tier.descent_level (n : Nat) (tier : Tier) :
    tier.level.descent (n + 1)
      = Descent.chain tier.kind tier.combine (tier.below.descent n) (tier.level.descent n) := by
  cases tier <;> rfl

theorem conducts_tier {n : Nat} {s : List ScanResult} (tier : Tier)
    (hbelow : Conducts tier.below.parse (tier.below.descent n) s)
    (hagain : ∀ s' : List ScanResult, s'.length < s.length →
      Conducts tier.level.parse (tier.level.descent n) s') :
    Conducts tier.level.parse (tier.level.descent (n + 1)) s := by
  rw [Tier.parse_level, Tier.descent_level]
  exact conducts_chain hbelow hagain

/-- With a bound that grows with the results, the trees conduct the parsing of expressions. -/
theorem Level.conducts {n : Nat} {s : List ScanResult} {x : Level}
    (h : 4 * s.length + x.height ≤ n) : Conducts x.parse (x.descent n) s := by
  induction n generalizing s x with
  | zero => cases x <;> simp [Level.height] at h
  | succ n ih =>
    have hpos : 1 ≤ x.height := by cases x <;> decide
    have hagain : ∀ y : Level, ∀ s' : List ScanResult, s'.length < s.length →
        Conducts y.parse (y.descent n) s' := by
      intro y s' hs'
      have hheight : y.height ≤ 4 := by cases y <;> decide
      exact ih (by omega)
    cases x with
    | expression => exact conducts_tier .less (ih (Nat.le_of_succ_le_succ h)) (hagain _)
    | add => exact conducts_tier .plus (ih (Nat.le_of_succ_le_succ h)) (hagain _)
    | multiply => exact conducts_tier .star (ih (Nat.le_of_succ_le_succ h)) (hagain _)
    | term => exact conducts_term (hagain _)

/-! ## Statements -/

section
variable {n : Nat} {s : List ScanResult} {condition value : Descent (Expr Empty)}
  {block : Descent (Stmt Empty)} {t : Token} {rest : List ScanResult}

/-- A keyword that was looked at is taken again. -/
theorem read_expectKeyword {α : Type} {k : Keyword} {f : Unit → Descent α} (h : t.IsWord k) :
    ((expect (judgeKeyword k)).bind f).read (some t) rest = (f ()).read none rest := by
  have hjudge : judgeKeyword k t = .ok () := by
    rw [judgeKeyword, if_pos h.1, if_pos h.2]
  rw [read_bind, expect, next, read_ask_ok ahead_some, hjudge]
  rfl

theorem conducts_assign
    (hvalue : ∀ s' : List ScanResult, s'.length < s.length →
      Conducts Level.expression.parse value s') :
    Conducts parseAssign (assignDescent value) s := by
  intro held unread h
  unfold parseAssign
  rw [expectKind, bind_assoc]
  refine concurs_ask h fun t rest hlt hs => ?_
  unfold judgeVariable
  by_cases hk : t.kind = .name
  · simp only [hk, if_true, pure_bind]
    by_cases hr : (Keyword.ofText? t.value).isSome = true
    · simp only [hr, if_true]
      exact .stopped
    · simp only [hr]
      refine (conducts_expectKind .equals rest none rest rfl).bind fun sign held unread hsign => ?_
      have hshorter : sign.rest.length < s.length := Nat.lt_trans sign.shorter hlt
      exact (hvalue sign.rest hshorter held unread hsign).bind fun p held unread hp => .done hp
  · simp only [hk, if_false]
    exact .stopped

theorem conducts_sequenced
    (hcondition : ∀ s' : List ScanResult, s'.length < s.length →
      Conducts parseCondition condition s')
    (hblock : ∀ s' : List ScanResult, s'.length < s.length → Conducts parseBlock block s')
    (hassign : Conducts parseAssign (assignDescent value) s) :
    Conducts Grade.sequenced.parse (sequencedDescent condition block value) s := by
  intro held unread h
  rw [Grade.parse, parseSequenced]
  refine concurs_ask h fun t rest hlt hs => ?_
  simp only
  by_cases hk : t.kind = .name
  · rw [if_neg (by simpa using hk), if_neg (by simpa using hk)]
    -- an assignment looks at the first token once more
    have hother := hassign (some t) rest hs.symm
    cases hword : Keyword.ofText? t.value with
    | none => exact hother
    | some word =>
      have hw : t.IsWord word := ⟨hk, (ofText?_eq_some_iff.mp hword).symm⟩
      cases word with
      | whileWord =>
        show Concurs _ (((expect (judgeKeyword .whileWord)).bind _).read (some t) rest)
        rw [read_expectKeyword hw]
        refine (hcondition rest hlt none rest rfl).bind fun c held unread hc => ?_
        have hshorter : c.rest.length < s.length := Nat.lt_trans c.shorter hlt
        exact (hblock c.rest hshorter held unread hc).bind fun b held unread hb => .done hb
      | ifWord =>
        show Concurs _ (((expect (judgeKeyword .ifWord)).bind _).read (some t) rest)
        rw [read_expectKeyword hw]
        refine (hcondition rest hlt none rest rfl).bind fun c held unread hc => ?_
        have hshorter : c.rest.length < s.length := Nat.lt_trans c.shorter hlt
        refine (hblock c.rest hshorter held unread hc).bind fun b held unread hb => ?_
        refine (conducts_expectKeyword .elseWord b.rest held unread hb).bind
          fun w held unread hw => ?_
        have hshorter' : w.rest.length < s.length :=
          Nat.lt_trans w.shorter (Nat.lt_trans b.shorter hshorter)
        exact (hblock w.rest hshorter' held unread hw).bind fun b' held unread hb' => .done hb'
      | doNothing => exact .done rfl
      | elseWord => exact hother
      | trueWord => exact hother
      | falseWord => exact hother
  · rw [if_pos hk, if_pos hk]
    exact .stopped

end

/-- A bound on the depth that suffices for statements of the symbol in front of no results. -/
def Grade.height : Grade → Nat
  | .statement => 2
  | .sequenced => 1

/-- With a bound that grows with the results, the trees conduct the parsing of statements. -/
theorem Grade.conducts {n : Nat} {s : List ScanResult} {x : Grade}
    (h : 4 * s.length + x.height ≤ n) : Conducts x.parse (x.descent n) s := by
  induction n generalizing s x with
  | zero => cases x <;> simp [Grade.height] at h
  | succ n ih =>
    have hpos : 1 ≤ x.height := by cases x <;> decide
    have hagain : ∀ s' : List ScanResult, s'.length < s.length →
        Conducts Grade.statement.parse (Grade.statement.descent n) s' := by
      intro s' hs'
      exact ih (by simp only [Grade.height]; omega)
    have hexpression : ∀ s' : List ScanResult, s'.length < s.length →
        Conducts Level.expression.parse (Level.expression.descent n) s' := by
      intro s' hs'
      exact Level.conducts (by simp only [Level.height]; omega)
    cases x with
    | statement =>
      rw [Grade.parse_statement]
      exact conducts_chain (ih (Nat.le_of_succ_le_succ h)) hagain
    | sequenced =>
      refine conducts_sequenced (fun s' hs' => ?_) (fun s' hs' => ?_) (conducts_assign hexpression)
      · rw [parseCondition_eq_enclosed]
        exact conducts_enclosed fun s'' hs'' => hexpression s'' (Nat.lt_trans hs'' hs')
      · rw [parseBlock_eq_enclosed]
        exact conducts_enclosed fun s'' hs'' => hagain s'' (Nat.lt_trans hs'' hs')

/-! ## Programs -/

section
variable {n : Nat} {s : List ScanResult} {root : Root}

theorem Root.conducts (h : 4 * s.length + 4 ≤ n) :
    Conducts (parseRoot root) (root.descent n) s := by
  intro held unread hs
  cases root with
  | statement =>
    have hstatement : Conducts Grade.statement.parse (Grade.statement.descent n) s :=
      Grade.conducts (by simp only [Grade.height]; omega)
    exact (hstatement held unread hs).bind fun p held unread hp => .done hp
  | expression =>
    have hexpression : Conducts Level.expression.parse (Level.expression.descent n) s :=
      Level.conducts h
    exact (hexpression held unread hs).bind fun p held unread hp => .done hp

theorem read_program_of_takes {v : Node Empty} {e : Token} {rest : List ScanResult}
    (h : 4 * s.length + 4 ≤ n) (htakes : Takes (parseRoot root s) v (.ok e :: rest))
    (he : e.kind = .ending) : (programDescent n root).read none s = .done v none rest := by
  have hconducts : Conducts (parseRoot root) (root.descent n) s := Root.conducts h
  have hroot := hconducts none s rfl
  obtain ⟨_, hparse⟩ := htakes
  rw [hparse] at hroot
  show ((root.descent n).bind _).read none s = _
  rw [read_bind]
  generalize (root.descent n).read none s = outcome at hroot
  cases hroot with
  | done hrest =>
    have hjudge : judgeKind .ending e = .ok e := by rw [judgeKind, if_pos he]
    show ((expect (judgeKind .ending)).bind _).read _ _ = _
    rw [read_bind, expect, next, read_ask_ok hrest, hjudge]
    rfl

/-- Where parsing a program fails, the tree stops. -/
theorem read_program_of_error {f : ParseFailure} (h : 4 * s.length + 4 ≤ n)
    (hparse : parseResults root s = .error f) :
    (programDescent n root).read none s = .stopped f.error f.rest := by
  have hconducts : Conducts (parseRoot root) (root.descent n) s := Root.conducts h
  have hroot := hconducts none s rfl
  unfold parseResults at hparse
  show ((root.descent n).bind _).read none s = _
  rw [read_bind]
  generalize (root.descent n).read none s = outcome at hroot
  generalize parseRoot root s = parsed at hroot hparse
  cases hroot with
  | stopped =>
    cases hparse
    rfl
  | @done v rest unread held _ hrest =>
    have hend := conducts_expectKind .ending rest held unread hrest
    show ((expect (judgeKind .ending)).bind _).read held unread = _
    rw [read_bind]
    generalize (expect (judgeKind .ending)).read held unread = outcome at hend
    have hparse : (expectKind .ending rest >>= fun _ => pure v) = .error f := hparse
    generalize expectKind .ending rest = parsed at hend hparse
    cases hend with
    | stopped =>
      cases hparse
      rfl
    | done _ => cases hparse

end

end Denotation
