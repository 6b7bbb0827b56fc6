import Denotation.Machine.Builtin

/-!
# The machine

A machine evaluates forms. It counts the rounds that closures and loops start with `recur`, over
everything it has run, and may cap their number. The count is a 64-bit word, and goes on from the
smallest one after the largest.

Evaluation is given fuel, which bounds how deep it goes and how many rounds a closure or a loop takes.
An evaluation that ends before the fuel runs out gives the same answer with any more fuel.
Evaluation of a form has two outcomes, a value or a request for the next round, so a request can never
be stored or passed on.

`evalStep` evaluates a form by means of an evaluator `ev` for the forms inside it. A body is evaluated
for as long as it asks for another round, by `callRounds` for closures and by `loopRounds` for loops:
a closure checks its arguments at the head of every round and binds its own name too, and a loop
spends its first round in the frame where its initialisers were evaluated.
-/

namespace Denotation

/-- A machine. -/
structure Machine where
  /-- How many rounds may be started, without limit unless positive. A cap is a 64-bit integer; the
  largest one is as good as none, since no count is above it. -/
  cap : Int
  /-- Counts the rounds that were started. -/
  counter : Int64
  /-- Whether the run was cancelled, which the start of a round notices. -/
  cancelled : Bool
  /-- The frames of loops whose initialisers make closures. -/
  frames : Array Bindings

/-- How many rounds were started, as far as the counter tells. -/
def Machine.rounds (m : Machine) : Int := m.counter.toInt

/-- A machine that has run nothing yet. -/
def Machine.ofCap (cap : Int) : Machine := ⟨cap, 0, false, #[]⟩

/-- What a computation comes to, with the machine after it. -/
inductive Result (α : Type) where
  /-- The computation ends with a value. -/
  | ok (a : α) (m : Machine)
  /-- The computation fails. -/
  | error (e : RunError) (m : Machine)
  /-- The fuel runs out. -/
  | exhausted

/-- The value or the failure, with the machine; `none` if the fuel ran out. -/
def Result.toOption {α : Type} : Result α → Option (Except RunError α × Machine)
  | .ok a m => some (.ok a, m)
  | .error e m => some (.error e, m)
  | .exhausted => none

/-- A computation on a machine. -/
def Run (α : Type) := Machine → Result α

namespace Run

variable {α β : Type}

/-- The computation that only returns a value. -/
@[always_inline, inline]
protected def pure (a : α) : Run α := fun m => .ok a m

/-- The computation that only fails. -/
@[always_inline, inline]
def fail (e : RunError) : Run α := fun m => .error e m

/-- The computation that runs out of fuel. -/
def exhausted : Run α := fun _ => .exhausted

/-- One computation after another. -/
@[always_inline, inline]
protected def bind (x : Run α) (f : α → Run β) : Run β := fun m =>
  match x m with
  | .ok a m => f a m
  | .error e m => .error e m
  | .exhausted => .exhausted

instance : Monad Run where
  pure := Run.pure
  bind := Run.bind

/-- A computation that does not depend on the machine. -/
@[always_inline, inline]
def ofExcept (x : Except RunError α) : Run α := fun m =>
  match x with
  | .ok a => .ok a m
  | .error e => .error e m

end Run

/-- What the evaluation of a form comes to. -/
inductive Outcome where
  /-- A value. -/
  | value (v : Value)
  /-- A request for another round with these arguments. -/
  | recur (args : List Value)

/-- The value of a name in the innermost frame that binds it, or else of a builtin. -/
def Machine.lookup (m : Machine) : Scope → Text → Option Value
  | [], name => (Builtin.ofName? name).map .builtin
  | .own bindings :: outer, name => Bindings.find? name bindings <|> m.lookup outer name
  | .shared n :: outer, name => (m.frames[n]?.bind (Bindings.find? name)) <|> m.lookup outer name

/-- Starts another round of a closure or loop with `arity` names: counts it and checks that it may go
ahead. -/
def startRound (arity : Nat) (args : List Value) : Run Unit := fun m =>
  if args.length ≠ arity then .error (.miscount (.recur arity args.length)) m
  else
    let m := { m with counter := m.counter + 1 }
    if 0 < m.cap ∧ m.cap < m.rounds then .error (.roundLimit m.cap) m
    else if m.cancelled then .error .cancelled m
    else .ok () m

/-- Adds bindings of names to values, one after the other. -/
def bindAll : Bindings → List Text → List Value → Bindings
  | b, name :: names, v :: values => bindAll ((name, v) :: b) names values
  | b, _, _ => b

/-- An evaluator of forms. -/
abbrev Evaluate := Form → Scope → Run Outcome

section
variable (ev : Evaluate)

/-- The value of a form where no request for another round may stand. -/
@[specialize]
def evalValue (f : Form) (scope : Scope) : Run Value := do
  match ← ev f scope with
  | .value v => return v
  | .recur _ => Run.fail .misplacedRecur

/-- The values of forms, from left to right. -/
@[specialize]
def evalArgs (scope : Scope) : List Form → Run (List Value)
  | [] => return []
  | f :: rest => do
    let v ← evalValue ev f scope
    let values ← evalArgs scope rest
    return v :: values

/-- Evaluates the forms of a body in order; the last one gives the outcome. -/
@[specialize]
def evalBody (scope : Scope) : List Form → Run Outcome
  | [] => return .value .nil
  | [f] => ev f scope
  | f :: rest => do
    let _ ← evalValue ev f scope
    evalBody scope rest

/-- Evaluates the body of a closure with its parameters bound to the arguments, and again with new
arguments for as long as it asks for another round. Each round checks the number of arguments and
binds the name of the closure as well, if it has one. -/
@[specialize]
def callRounds (name : Option Text) (params : List Text) (body : List Form) (scope : Scope) :
    Nat → List Value → Machine → Result Value
  | 0, _, _ => .exhausted
  | fuel + 1, args, m =>
    if args.length ≠ params.length then
      .error (.miscount (.closure name params.length args.length)) m
    else
      let self := name.toList.map fun n => (n, .closure name params body scope)
      match evalBody ev (.own (bindAll self params args) :: scope) body m with
      | .ok (.value v) m => .ok v m
      | .ok (.recur args) m =>
        match startRound params.length args m with
        | .ok () m => callRounds name params body scope fuel args m
        | .error e m => .error e m
        | .exhausted => .exhausted
      | .error e m => .error e m
      | .exhausted => .exhausted

/-- Calls a value with arguments. -/
@[specialize]
def applyValue (fuel : Nat) (callee : Value) (args : List Value) : Run Value :=
  match callee with
  | .builtin b => Run.ofExcept (b.apply args)
  | .closure name params body scope => callRounds ev name params body scope fuel args
  | v => Run.fail (.notCallable v.display)

/-- The names that a loop binds, up to the first binding that is none. -/
def Form.loopNames : List Form → List Text
  | .symbol name :: _ :: rest => name :: Form.loopNames rest
  | _ => []

/-- Evaluates the initialisers of a loop in order, each with the names before it bound, and gives all
the bindings. -/
@[specialize]
def bindOwn (scope : Scope) : Bindings → List Form → Run Bindings
  | bound, .symbol name :: init :: rest => do
    let v ← evalValue ev init (.own bound :: scope)
    bindOwn scope ((name, v) :: bound) rest
  | _, f :: _ :: _ => Run.fail (.malformed (.loopBinding f))
  | bound, _ => return bound

/-- Adds a binding to a frame that the machine keeps. -/
def extendFrame (number : Nat) (name : Text) (v : Value) : Run Unit := fun m =>
  .ok () { m with frames := m.frames.modify number fun b => (name, v) :: b }

/-- Evaluates the initialisers of a loop in order, in a frame that the machine keeps: a closure that
one of them makes will see the names after it too. -/
@[specialize]
def bindShared (scope : Scope) (number : Nat) : List Form → Run Unit
  | .symbol name :: init :: rest => do
    let v ← evalValue ev init (.shared number :: scope)
    extendFrame number name v
    bindShared scope number rest
  | f :: _ :: _ => Run.fail (.malformed (.loopBinding f))
  | _ => return ()

/-- The number of a new frame that the machine keeps. -/
def newFrame : Run Nat := fun m =>
  .ok m.frames.size { m with frames := m.frames.push [] }

/-- The frame of a loop, with its names bound to their first values. -/
@[specialize]
def bindLoop (bindings : List Form) (scope : Scope) : Run Frame := do
  if Form.anyMakesClosure bindings then
    let number ← newFrame
    bindShared ev scope number bindings
    return .shared number
  else return .own (← bindOwn ev scope [] bindings)

/-- Evaluates the body of a loop in a frame, and again in a new frame with its names bound to the new
arguments for as long as it asks for another round. -/
@[specialize]
def loopRounds (names : List Text) (body : List Form) (scope : Scope) :
    Nat → Frame → Machine → Result Value
  | 0, _, _ => .exhausted
  | fuel + 1, inner, m =>
    match evalBody ev (inner :: scope) body m with
    | .ok (.value v) m => .ok v m
    | .ok (.recur args) m =>
      match startRound names.length args m with
      | .ok () m => loopRounds names body scope fuel (.own (bindAll [] names args)) m
      | .error e m => .error e m
      | .exhausted => .exhausted
    | .error e m => .error e m
    | .exhausted => .exhausted

/-- Evaluates a loop, given what follows the word `loop`. -/
@[specialize]
def evalLoop (fuel : Nat) (rest : List Form) (scope : Scope) : Run Value :=
  match rest with
  | [] => Run.fail (.malformed .loopWithoutBindings)
  | .vector bindings :: body =>
    if bindings.length % 2 == 1 then Run.fail (.malformed .loopBindings)
    else do
      let inner ← bindLoop ev bindings scope
      loopRounds ev (Form.loopNames bindings) body scope fuel inner
  | _ => Run.fail (.malformed .loopBindings)

/-- Evaluates a condition and then one of two forms, given what follows the word `if`. -/
@[specialize]
def evalBranch (rest : List Form) (scope : Scope) : Run Outcome :=
  match rest with
  | [test, yes] => do
    if (← evalValue ev test scope).isTruthy then ev yes scope else return .value .nil
  | [test, yes, no] => do
    if (← evalValue ev test scope).isTruthy then ev yes scope else ev no scope
  | _ => Run.fail (.malformed (.branchForms rest.length))

end

/-- The names of parameters. -/
def paramNames : List Form → Except RunError (List Text)
  | [] => .ok []
  | .symbol name :: rest => return name :: (← paramNames rest)
  | f :: _ => .error (.malformed (.fnParam f))

/-- The closure with an optional name, given what follows it. -/
def makeClosure (name : Option Text) (rest : List Form) (scope : Scope) : Except RunError Value :=
  match rest with
  | [] => .error (.malformed .fnWithoutParams)
  | .vector params :: body => (paramNames params).map fun names => .closure name names body scope
  | _ => .error (.malformed .fnParams)

/-- The closure that a form makes, given what follows the word `fn`. -/
def evalFn (rest : List Form) (scope : Scope) : Except RunError Value :=
  match rest with
  | .symbol name :: rest => makeClosure (some name) rest scope
  | rest => makeClosure none rest scope

/-- Evaluates a form by means of an evaluator for the forms inside it. -/
@[specialize]
def evalStep (ev : Evaluate) (fuel : Nat) (f : Form) (scope : Scope) : Run Outcome :=
  match f with
  | .nil => return .value .nil
  | .bool b => return .value (.bool b)
  | .int n => return .value (.int n)
  | .text t => return .value (.text t)
  | .symbol name => fun m =>
    match m.lookup scope name with
    | some v => .ok (.value v) m
    | none => .error (.unbound name) m
  | .vector items => do return .value (.vector (← evalArgs ev scope items))
  | .list [] => return .value (.list [])
  | .list (head :: rest) =>
    match head.special? with
    | some .fn => do return .value (← Run.ofExcept (evalFn rest scope))
    | some .branch => evalBranch ev rest scope
    | some .loop => do return .value (← evalLoop ev fuel rest scope)
    | some .recur => do return .recur (← evalArgs ev scope rest)
    | none => do
      let callee ← evalValue ev head scope
      let args ← evalArgs ev scope rest
      return .value (← applyValue ev fuel callee args)

/-- Evaluates a form. -/
def eval : Nat → Evaluate
  | 0, _, _ => Run.exhausted
  | fuel + 1, f, scope => evalStep (eval fuel) fuel f scope

/-- Calls what a form evaluates to with arguments. -/
def runForm (fuel : Nat) (f : Form) (args : List Value) : Run Value := do
  match ← eval fuel f [] with
  | .value callee => applyValue (eval fuel) fuel callee args
  | .recur pending =>
    Run.fail (.notCallable (Text.concat ["&\x7b", (Value.vector pending).display, "\x7d"]))

/-- Reads a program, evaluates it to a function and calls that with arguments; `none` when the fuel
runs out. -/
def Machine.run (fuel : Nat) (cancelled : Bool) (program : Text) (args : List Value) (m : Machine) :
    Option (Except RunError Value × Machine) :=
  match Form.read program with
  | .error e => some (.error (.unreadable e), m)
  | .ok f => (runForm fuel f args { m with cancelled }).toOption

/-- More fuel than any run of a program will use up. -/
def ampleFuel : Nat := Nat.pow 10 18

end Denotation
