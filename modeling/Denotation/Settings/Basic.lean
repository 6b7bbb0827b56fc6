import Denotation.Execution.Interpreter
import Denotation.Simple.Parsing

/-!
# Settings

Settings choose the targets, the root, where output goes and how programs are run. Settings without
problems resolve: to a list of targets without repetition, a root, and an environment of integers and
truth values.
-/

namespace Denotation

/-- What can be set for a run of the command line. -/
structure Settings where
  /-- The targets, by names or short names. -/
  targets : List Text
  /-- The name of the root. -/
  root : Text
  /-- The directory for output, empty for the directory of the source. -/
  outDir : Text
  /-- Whether tokens, tree and output are shown. -/
  debug : Bool
  /-- The environment that programs are run on. -/
  env : Bindings
  /-- How many rounds the loops of a program may take, without limit if zero. -/
  maxRounds : Int
  /-- The interpreters to call in place of the usual ones, by the names of targets. -/
  interpreters : List (Text × Text)
  /-- The directory that the settings come from, empty for those that come from no file. -/
  baseDir : Text

/-- A name that is no root's. -/
structure UnknownRoot where
  /-- The name. -/
  name : Text

/-- The text of the error. -/
def UnknownRoot.message (e : UnknownRoot) : Text :=
  Text.concat ["unknown root ", e.name.quote, ", want statement or expression"]

/-- A problem with settings. -/
inductive SettingsProblem where
  /-- There is no target. -/
  | noTarget
  /-- A target cannot be resolved. -/
  | target (e : UnsupportedTarget)
  /-- The root cannot be resolved. -/
  | root (e : UnknownRoot)
  /-- The limit of rounds is negative. -/
  | negativeRounds
  /-- The environment holds a value that is neither an integer nor a truth value. -/
  | value (name : Text) (kind : Kind)
  /-- An interpreter is given for a target that cannot be resolved. -/
  | interpreter (e : UnsupportedTarget)

/-- The text of the problem. -/
def SettingsProblem.message : SettingsProblem → Text
  | .noTarget => "targets: at least one target is required"
  | .target e => "targets: " ++ e.message
  | .root e => "root: " ++ e.message
  | .negativeRounds => "run.max_rounds: must not be negative"
  | .value name kind =>
    Text.concat ["run.env.", name, ": ", kind.name, " is neither integer nor boolean"]
  | .interpreter e => "run.interpreters: " ++ e.message

/-- Settings with problems. -/
structure InvalidSettings where
  /-- The problems, of which there is at least one. -/
  problems : List SettingsProblem

/-- The text of the error. -/
def InvalidSettings.message (e : InvalidSettings) : Text :=
  "configuration errors:\n  - " ++ Text.join "\n  - " (e.problems.map SettingsProblem.message)

namespace Settings

/-- The settings of a run without a file. -/
def defaults : Settings where
  targets := [Target.javascript.name]
  root := Root.statement.name
  outDir := []
  debug := false
  env := []
  maxRounds := 1000000
  interpreters := []
  baseDir := []

/-! ## What settings resolve to -/

/-- The targets without repetition, each where it comes first; `seen` are those that came before. -/
def distinctFrom (seen : List Target) : List Target → List Target
  | [] => []
  | t :: rest => if seen.contains t then distinctFrom seen rest else t :: distinctFrom (t :: seen) rest

/-- The targets of the settings, without repetition. -/
def resolvedTargets (s : Settings) : Except UnsupportedTarget (List Target) :=
  (s.targets.mapM Target.resolve).map (distinctFrom [])

/-- The root of the settings; no name stands for the root of statements. -/
def resolvedRoot (s : Settings) : Except UnknownRoot Root :=
  let name := s.root.toLower
  if name.isEmpty || name == Root.statement.name then .ok .statement
  else if name == Root.expression.name then .ok .expression
  else .error ⟨s.root⟩

/-- A value of the environment as programs compute with it. -/
def initialValue : Value → Value
  | .word n => .int (Int64.ofInt n)
  | v => v

/-- The environment that programs are run on. -/
def initialEnv (s : Settings) : Bindings := s.env.map fun (name, v) => (name, initialValue v)

/-- The interpreter to call for a target in place of the usual one, empty if there is none; where
several are given, the last one counts. -/
def commandIn (interpreters : List (Text × Text)) (t : Target) : Text :=
  interpreters.foldl
    (fun chosen (name, command) =>
      match Target.resolve name with
      | .ok target => if target = t then command else chosen
      | .error _ => chosen)
    []

/-- The interpreter to call for a target in place of the usual one, empty if there is none. -/
def commandFor (s : Settings) (t : Target) : Text := commandIn s.interpreters t

/-! ## Problems -/

/-- Whether the kind of value may stand in the environment. -/
def isComputable : Kind → Bool
  | .word | .int | .bool => true
  | _ => false

/-- The problems with the targets. -/
def targetProblems (s : Settings) : List SettingsProblem :=
  (if s.targets.isEmpty then [.noTarget] else []) ++ s.targets.filterMap fun name =>
    match Target.resolve name with
    | .ok _ => none
    | .error e => some (.target e)

/-- The problems with the root. -/
def rootProblems (s : Settings) : List SettingsProblem :=
  match s.resolvedRoot with
  | .ok _ => []
  | .error e => [.root e]

/-- The problems with how programs are run. -/
def runProblems (s : Settings) : List SettingsProblem :=
  (if s.maxRounds < 0 then [.negativeRounds] else [])
    ++ (s.env.filterMap fun (name, v) =>
      if isComputable v.kind then none else some (.value name v.kind))
    ++ s.interpreters.filterMap fun (name, _) =>
      match Target.resolve name with
      | .ok _ => none
      | .error e => some (.interpreter e)

/-- All problems with the settings, in order. -/
def problems (s : Settings) : List SettingsProblem :=
  s.targetProblems ++ s.rootProblems ++ s.runProblems

/-- Refuses settings with problems. -/
def validate (s : Settings) : Except InvalidSettings Unit :=
  if s.problems.isEmpty then .ok () else .error ⟨s.problems⟩

end Settings

end Denotation
