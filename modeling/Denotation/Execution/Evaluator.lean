import Denotation.Machine.Basic

/-!
# Evaluation in process

Clojure renderings are run by the machine itself, one run on a fresh machine.
-/

namespace Denotation

/-- Why a program could not be evaluated. -/
structure EvaluationError where
  /-- What the machine failed with. -/
  cause : RunError

/-- The text of the error. -/
def EvaluationError.message (e : EvaluationError) : Text := "execution failed: " ++ e.cause.message

/-- What a run came to and how many rounds it took. -/
structure Evaluation where
  /-- The value of the program, or why it has none. -/
  result : Except EvaluationError Value
  /-- The rounds that were started, as far as the counter of the machine tells. -/
  rounds : Int

/-- Runs a program on an environment, with at most `maxRounds` rounds if that is positive; `none`
when the fuel runs out. -/
def evaluate (fuel : Nat) (maxRounds : Int) (cancelled : Bool) (program : Text) (env : Bindings) :
    Option Evaluation :=
  (Machine.run fuel cancelled program [.map env] (Machine.ofCap maxRounds)).map fun (result, m) =>
    ⟨result.mapError EvaluationError.mk, m.rounds⟩

end Denotation
