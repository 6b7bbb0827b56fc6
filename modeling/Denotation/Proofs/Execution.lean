import Denotation.Execution.Evaluator
import Denotation.Proofs.Rendered
import Denotation.Proofs.Requests

/-!
# Running rendered closures

What the machine does with the forms that programs are rendered to. Every closure in them has one
parameter, the environment, so their scopes are lists of environments. `turns` runs the body of such
a closure for a number of rounds and `enter` for as many as there is fuel; the equations below say
what entering each kind of body comes to, in terms of entering the bodies inside it.

Each equation holds for every amount of fuel above the little that the construct itself takes. Below
that amount the fuel runs out.
-/

namespace Denotation

/-! ## Scopes -/

/-- The scope in which environments are bound one inside the other, the innermost first. -/
def scopeOf (vs : List Value) : Scope := vs.map fun v => .own [("e", v)]

variable {n j : Nat} {vs : List Value} {v : Value} {m : Machine} {body : Form}

/-- Environments do not hide the builtins. -/
theorem lookup_builtin (b : Builtin) : m.lookup (scopeOf vs) b.name = some (.builtin b) := by
  induction vs with
  | nil => cases b <;> rfl
  | cons v vs ih =>
    have hne : (Text.ofString "e" == b.name) = false := by cases b <;> rfl
    simp only [scopeOf, List.map_cons, Machine.lookup, Bindings.find?, hne]
    exact ih

theorem eval_symbol_e : eval (n + 1) (.symbol "e") (scopeOf (v :: vs)) = pure (.value v) := rfl

theorem evalValue_symbol_e : evalValue (eval (n + 1)) (.symbol "e") (scopeOf (v :: vs)) = pure v :=
  rfl

theorem evalValue_text (t : Text) :
    evalValue (eval (n + 1)) (.text t) (scopeOf vs) = pure (.text t) :=
  rfl

theorem evalValue_builtin (b : Builtin) :
    evalValue (eval (n + 1)) (.symbol b.name) (scopeOf vs) = pure (.builtin b) := by
  funext m
  simp only [evalValue, eval, evalStep, lookup_builtin]
  rfl

theorem evalValue_closing :
    evalValue (eval (n + 1)) (.closing body) (scopeOf vs)
      = pure (.closure none ["e"] [body] (scopeOf vs)) := rfl

/-! ## Bodies -/

/-- Runs the body of a closure on an environment, for at most the given number of rounds. -/
def turns (n rounds : Nat) (body : Form) (vs : List Value) (v : Value) : Run Value :=
  callRounds (eval n) none ["e"] [body] (scopeOf vs) rounds [v]

/-- Runs the body of a closure on an environment. -/
def enter (n : Nat) (body : Form) (vs : List Value) (v : Value) : Run Value := turns n n body vs v

/-- A body gives a value or asks for another round. -/
theorem turns_succ :
    turns n (j + 1) body vs v = eval n body (scopeOf (v :: vs)) >>=
      Outcome.goOn 1 (callRounds (eval n) none ["e"] [body] (scopeOf vs) j) :=
  callRounds_succ (eval n) none ["e"] [body] (scopeOf vs) j [v]

/-- A body that only gives a value takes one round. -/
theorem enter_of_value {x : Run Value}
    (h : eval (n + 1) body (scopeOf (v :: vs)) = (do return .value (← x))) :
    enter (n + 1) body vs v = x := by
  rw [enter, turns_succ, h]
  simp [Outcome.goOn]

/-- A closure applied to the environment enters its body. -/
theorem eval_here :
    eval (n + 1) (.here body) (scopeOf (v :: vs))
      = (do return .value (← enter n body (v :: vs) v)) := by
  cases n with
  | zero => rfl
  | succ n => rfl

theorem evalValue_here :
    evalValue (eval (n + 1)) (.here body) (scopeOf (v :: vs)) = enter n body (v :: vs) v := by
  rw [evalValue, eval_here]
  simp

/-- A builtin is applied to its operands, the left one evaluated first. -/
theorem enter_call (op : Builtin) (l r : Form) :
    enter (n + 2) (.call op l r) vs v = (do
      let x ← evalValue (eval (n + 1)) l (scopeOf (v :: vs))
      let y ← evalValue (eval (n + 1)) r (scopeOf (v :: vs))
      Run.ofExcept (op.apply [x, y])) := by
  apply enter_of_value
  have hop : Form.special? (.symbol op.name) = none := by cases op <;> rfl
  rw [eval]
  simp only [Form.call, evalStep, hop, evalValue_builtin, evalArgs]
  simp [applyValue_builtin]

theorem enter_one_call (op : Builtin) (l r : Form) :
    enter 1 (.call op l r) vs v = Run.exhausted := by
  cases op <;> rfl

/-- The environment with a name bound to the value of a form. -/
theorem enter_assoc (name : Text) (f : Form) :
    enter (n + 2) (.list [.symbol Builtin.assoc.name, .symbol "e", .text name, f]) vs v = (do
      let x ← evalValue (eval (n + 1)) f (scopeOf (v :: vs))
      Run.ofExcept (Builtin.assoc.apply [v, .text name, x])) := by
  apply enter_of_value
  have hop : Form.special? (.symbol Builtin.assoc.name) = none := rfl
  rw [eval]
  simp only [evalStep, hop, evalValue_builtin, evalArgs, evalValue_symbol_e, evalValue_text]
  simp [applyValue_builtin]

/-- The second body is entered with what the first one gives. -/
theorem enter_sequence (first second : Form) :
    enter (n + 2) (.list [.closing second, .here first]) vs v = (do
      let w ← enter n first (v :: vs) v
      enter (n + 1) second (v :: vs) w) := by
  apply enter_of_value
  rw [eval]
  have hop : Form.special? (.closing second) = none := rfl
  simp only [evalStep, hop, evalValue_closing, evalArgs, applyValue_closure, evalValue_here, bind_assoc,
    pure_bind]
  rfl

/-- The condition chooses the body to enter. -/
theorem enter_choice (c yes no : Form) :
    enter (n + 2) (.choice (.here c) (.here yes) (.here no)) vs v = (do
      if (← enter n c (v :: vs) v).isTruthy then enter n yes (v :: vs) v
      else enter n no (v :: vs) v) := by
  apply enter_of_value
  rw [eval]
  have hop : Form.special? (.symbol "if") = some .branch := rfl
  simp only [Form.choice, evalStep, hop, evalBranch, evalValue_here, eval_here]
  simp only [bind_assoc]
  congr 1
  funext x
  split <;> rfl

/-- As long as the condition holds, the body gives the environment of the next round. -/
theorem turns_loop (c body : Form) :
    turns (n + 2) (j + 1)
        (.choice (.here c) (.list [.symbol "recur", .here body]) (.symbol "e")) vs v
      = (do
        if (← enter n c (v :: vs) v).isTruthy then
          let w ← evalValue (eval n) (.here body) (scopeOf (v :: vs))
          startRound 1 [w]
          turns (n + 2) j
            (.choice (.here c) (.list [.symbol "recur", .here body]) (.symbol "e")) vs w
        else return v) := by
  rw [turns_succ, eval]
  have hop : Form.special? (.symbol "if") = some .branch := rfl
  have hrecur : Form.special? (.symbol "recur") = some .recur := rfl
  simp only [Form.choice, evalStep, hop, evalBranch, evalValue_here, eval_symbol_e]
  simp only [bind_assoc]
  congr 1
  funext x
  split
  · simp only [eval, evalStep, hrecur, evalArgs, bind_assoc, pure_bind]
    rfl
  · rfl

/-- Running a closure on an environment enters its body. -/
theorem runForm_closing : runForm n (.closing body) [v] = enter n body [] v := by
  cases n with
  | zero => rfl
  | succ n => rfl

end Denotation
