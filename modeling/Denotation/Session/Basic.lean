import Denotation.Execution.Evaluator
import Denotation.Session.Block
import Denotation.Simple.Parsing
import Denotation.Target.Rendering

/-!
# Sessions

A session carries an environment and a choice of targets from line to line. A line is a command or a
program: a program is rendered for the chosen targets and then evaluated, by its Clojure rendering,
whatever targets are chosen. A statement that runs to its end leaves its environment to the next line;
nothing else but `:reset` changes the environment.
-/

namespace Denotation

/-- What a session carries from line to line. -/
structure Session where
  /-- The names of the targets that programs are rendered for. -/
  targets : List Text
  /-- The values of variables. -/
  env : Bindings
  /-- How many rounds the loops of one line may take, without limit unless positive. -/
  maxRounds : Int
  /-- Whether the tree of a program is shown before its renderings. -/
  showTree : Bool

/-- What a line prints and the session after it. -/
structure Reply where
  /-- The text printed. -/
  output : Text
  /-- The session afterwards. -/
  session : Session

namespace Session

/-- A session that has seen no line. -/
def start (targets : List Text) (env : Bindings) (maxRounds : Int) : Session :=
  ⟨targets, env, maxRounds, false⟩

/-- The names of all targets. -/
def targetNames : Text := Text.join "," (Target.all.map Target.name)

/-- What `:help` prints. -/
def helpText : Text :=
  Text.concat ["  :targets [t,...]  show or set targets (", targetNames, ")\n",
    "  :env              show the session environment\n",
    "  :reset            empty the session environment\n",
    "  :ast              toggle AST dumps\n"]

/-- The reply that changes nothing. -/
def reply (s : Session) (output : Text) : Reply := ⟨output, s⟩

/-- Shows the targets, or sets them to the given ones. -/
def chooseTargets (s : Session) (typed : List Text) : Reply :=
  if typed.isEmpty then s.reply (Text.join "," s.targets ++ "\n")
  else
    match Target.resolveList (Text.join "," typed) with
    | .ok targets => { s with targets := targets.map Target.name }.reply []
    | .error e => s.reply (Text.concat ["error: ", e.message, "\n"])

/-- Carries out a command, given by its words. -/
def command (s : Session) : List Text → Reply
  | [] => s.reply []
  | word :: rest =>
    if word == Text.ofString ":help" then s.reply helpText
    else if word == Text.ofString ":targets" then s.chooseTargets rest
    else if word == Text.ofString ":env" then s.reply ((Value.map s.env).format ++ "\n")
    else if word == Text.ofString ":reset" then { s with env := [] }.reply []
    else if word == Text.ofString ":ast" then { s with showTree := !s.showTree }.reply []
    else s.reply (Text.concat ["unknown command ", word, ", try :help\n"])

/-- The environment after a value: the value itself if it is an environment. -/
def adopt (s : Session) (v : Value) : Session :=
  match v.entries? with
  | some env => { s with env }
  | none => s

/-- What the tree of a program is shown as, if it is to be shown. -/
def treeText (s : Session) (n : Node Empty) : Text :=
  if s.showTree then block "AST" ((n.mapGaps Empty.elim).dump n.print) else []

/-- Renders and evaluates a program; `none` when the fuel runs out. -/
def runProgram (s : Session) (fuel : Nat) (cancelled : Bool) (n : Node Empty) : Option Reply :=
  let tree := s.treeText n
  match (n.mapGaps Empty.elim).renderAll s.targets with
  | .error e => some (s.reply (Text.concat [tree, "render error: ", e.message, "\n"]))
  | .ok texts =>
    let shown := tree ++ texts.flatMap fun (name, text) => Text.concat [name, ": ", text, "\n"]
    (evaluate fuel s.maxRounds cancelled (n.render .clojure) s.env).map fun ev =>
      match ev.result with
      | .error e => s.reply (Text.concat [shown, "error: ", e.message, "\n"])
      | .ok v => (s.adopt v).reply (Text.concat [shown, "=> ", v.format, "\n"])

/-- Carries out one line; `none` when the fuel runs out. -/
def eval (s : Session) (fuel : Nat) (cancelled : Bool) (line : Text) : Option Reply :=
  if line.startsWith ":" then some (s.command line.words)
  else
    match parseAny line with
    | .error e => some (s.reply (Text.concat ["parse error: ", e.message, "\n"]))
    | .ok n => s.runProgram fuel cancelled n

end Session

end Denotation
