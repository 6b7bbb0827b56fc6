import Denotation.Execution.Exchange
import Denotation.Target.Basic
import Denotation.Text.Words

/-!
# Evaluation by an interpreter

Renderings for the other targets are run by the target's own interpreter. A script around the program
reads the environment as JSON from standard input and writes the result as JSON to standard output.
-/

namespace Denotation

/-- How an interpreter is called. -/
structure Prelude where
  /-- The name of the interpreter. -/
  command : Text
  /-- The option that a script follows. -/
  flag : Text
  /-- The script before the program. -/
  opening : Text
  /-- The script after the program. -/
  closing : Text

/-- How the interpreter of a target is called, if it has one. -/
def Target.prelude? : Target → Option Prelude
  | .clojure => none
  | .javascript => some {
      command := "node"
      flag := "-e"
      opening := "const env = JSON.parse(require(\"fs\").readFileSync(0, \"utf8\"));\nconst result = ("
      closing := ")(env);\nprocess.stdout.write(JSON.stringify(result));\n" }
  | .python => some {
      command := "python3"
      flag := "-c"
      opening := "import json, sys\nenv = json.load(sys.stdin)\nresult = ("
      closing := ")(env)\nsys.stdout.write(json.dumps(result))\n" }
  | .ruby => some {
      command := "ruby"
      flag := "-e"
      opening := "require \"json\"\nenv = JSON.parse($stdin.read)\nresult = ("
      closing := ").call(env)\nprint JSON.generate(result)\n" }

/-- How the interpreter of the target of the given name is called. -/
def Prelude.ofTargetName? (name : Text) : Option Prelude :=
  (Target.ofName? name).bind Target.prelude?

/-- What is asked of an interpreter. -/
structure Job where
  /-- The name it is found by. -/
  command : Text
  /-- The option that the script follows. -/
  flag : Text
  /-- The script. -/
  script : Text
  /-- What it reads. -/
  input : Text

/-- What an interpreter did. -/
structure JobResult where
  /-- Its exit status. -/
  status : Int
  /-- What it wrote to standard output. -/
  output : Text
  /-- What it wrote to standard error. -/
  errors : Text

/-- Why a program could not be run by an interpreter. -/
inductive InterpreterError where
  /-- The target has no interpreter. -/
  | noExecutor (target : Text)
  /-- The interpreter cannot be found. -/
  | notFound (command : Text)
  /-- The environment cannot be written. -/
  | encoding (e : EncodeError)
  /-- The interpreter failed. -/
  | exit (target : Text) (status : Int) (errors : Text)
  /-- The answer is no JSON. -/
  | decoding (data : Text) (e : Json.ReadError)
  /-- The answer holds a number that is no integer. -/
  | notInteger (e : NotInteger)
  /-- The run was cancelled. -/
  | cancelled

/-- The text of the error. -/
def InterpreterError.message : InterpreterError → Text
  | .noExecutor target => "no executor for target: " ++ target.quote
  | .notFound command => "interpreter not found: " ++ command
  | .encoding e => "execution failed: encoding environment: " ++ e.message
  | .exit target status errors =>
    Text.concat ["execution failed: ", target, ": exit status ", Text.ofInt status, ": ",
      errors.trim]
  | .decoding data e =>
    Text.concat ["execution failed: decoding result ", data.quote, ": ", e.message]
  | .notInteger e => Text.concat ["execution failed: ", e.spelling, " is not an integer"]
  | .cancelled => "context canceled"

/-- A target whose programs are run by an interpreter. -/
structure Subprocess where
  /-- The name of the target. -/
  target : Text
  /-- The interpreter to call in place of the usual one, unless empty. -/
  command : Text

namespace Subprocess

/-- The name of the interpreter to call, and how it is called. -/
def interpreter (s : Subprocess) : Except InterpreterError (Text × Prelude) :=
  match Prelude.ofTargetName? s.target with
  | none => .error (.noExecutor s.target)
  | some p => .ok (if s.command.isEmpty then p.command else s.command, p)

/-- The name of the interpreter to call if it can be found, and how it is called. -/
def locate (s : Subprocess) (found : Text → Bool) : Except InterpreterError (Text × Prelude) := do
  let (name, p) ← s.interpreter
  if found name then return (name, p) else throw (.notFound name)

/-- What to ask of the interpreter in order to run a program on an environment. -/
def job (s : Subprocess) (found : Text → Bool) (program : Text) (env : Option Bindings) :
    Except InterpreterError Job := do
  let (name, p) ← s.locate found
  let input ← (environmentText env).mapError .encoding
  return ⟨name, p.flag, Text.concat [p.opening, program, p.closing], input⟩

/-- The value that an interpreter printed. -/
def decode (data : Text) : Except InterpreterError Value := do
  let j ← (Json.read data).mapError (.decoding data)
  (Value.ofJson j).mapError .notInteger

/-- The value that a finished job stands for. -/
def conclude (s : Subprocess) (r : JobResult) : Except InterpreterError Value :=
  if r.status = 0 then decode r.output else .error (.exit s.target r.status r.errors)

/-- Runs a program on an environment with interpreters that are known by what they make of a job.
The jobs that were started come with the result; a cancelled run starts none. -/
def runWith (s : Subprocess) (known : Text → Option (Job → JobResult)) (cancelled : Bool)
    (program : Text) (env : Option Bindings) : Except InterpreterError Value × List Job :=
  match s.job (fun name => (known name).isSome) program env with
  | .error e => (.error e, [])
  | .ok job =>
    if cancelled then (.error .cancelled, [])
    else
      match known job.command with
      | none => (.error (.notFound job.command), [])
      | some perform => (s.conclude (perform job), [job])

/-- Runs a program on an environment with interpreters that answer every job alike. -/
def run (s : Subprocess) (known : Text → Option JobResult) (cancelled : Bool) (program : Text)
    (env : Option Bindings) : Except InterpreterError Value × List Job :=
  s.runWith (fun name => (known name).map fun r _ => r) cancelled program env

end Subprocess

/-- What runs the programs of a target. -/
inductive Executor where
  | evaluator
  | subprocess (s : Subprocess)

/-- The target has nothing that runs its programs. -/
structure NoExecutor where
  /-- The name of the target. -/
  target : Text

/-- The text of the error. -/
def NoExecutor.message (e : NoExecutor) : Text := "no executor for target: " ++ e.target.quote

/-- What runs the programs of the target of the given name. -/
def Executor.ofTargetName (name : Text) : Except NoExecutor Executor :=
  match Target.ofName? name with
  | some .clojure => .ok .evaluator
  | some _ => .ok (.subprocess ⟨name, []⟩)
  | none => .error ⟨name⟩

end Denotation
