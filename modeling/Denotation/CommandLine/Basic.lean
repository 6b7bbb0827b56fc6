import Denotation.CommandLine.Flags
import Denotation.Session.Transcript
import Denotation.Target.Rendering

/-!
# The command line

A run of the command line loads the settings, then either opens the interactive prompt or renders a
source file for every target, writes the renderings and, if asked to, runs them.
-/

namespace Denotation

/-- How a run of the command line ends. -/
inductive Ending where
  /-- With an exit status. -/
  | exit (status : Nat)
  /-- At the interactive prompt. -/
  | interactive (s : Session)

namespace CommandLine

variable {m : Type → Type} [Monad m]

/-- The name that the program is called by. -/
def programName : Text := "denote"

/-- Ends a run with a line about what went wrong. -/
def fail (host : Host m) (reason : Text) : m Ending := do
  host.log reason
  return .exit 1

/-- Ends a run whose flags are wrong, or that asks for help. -/
def refuse (host : Host m) (e : FlagError) : m Ending := do
  let heading := Text.concat ["Usage of ", programName, ":\n"]
  match e with
  | .help =>
    host.complain (heading ++ Flags.usage)
    return .exit 0
  | e =>
    host.complain (Text.concat [e.message, "\n", heading, Flags.usage])
    return .exit 2

/-- Ends a run without a source. -/
def askForSource (host : Host m) : m Ending := do
  host.print (Text.concat ["Usage: ", programName, " [flags] <file>\n"])
  host.complain Flags.usage
  return .exit 22

/-- The source file as the scanner reads it: a file that can be opened and not read ends with an
error. -/
def openSource (host : Host m) (path : Text) : m (Except FileError Scanner) := do
  match ← host.readFile path with
  | .ok text => return .ok (Scanner.ofText text path .complete)
  | .error e =>
    match e.action with
    | .read => return .ok (Scanner.ofText [] path (.failure e.message))
    | _ => return .error e

/-- The results that a parse looked at. -/
def looked (results : List ScanResult) (r : Except ParseFailure (Node Empty)) : List ScanResult :=
  match r with
  | .ok _ => results
  | .error e => results.take (results.length - e.rest.length)

/-- Runs a rendering and prints its value. -/
def runProgram (host : Host m) (s : Settings) (t : Target) (program : Text) : m Unit := do
  let conclude (result : Except Text Value) : m Unit :=
    match result with
    | .ok v => host.print (Text.concat [t.name, " => ", v.format, "\n"])
    | .error reason => host.log (Text.concat [t.name, ": ", reason])
  match Executor.ofTargetName t.name with
  | .error e => conclude (.error e.message)
  | .ok .evaluator =>
    match evaluate ampleFuel s.maxRounds false program s.initialEnv with
    | none => conclude (.error "out of fuel")
    | some ev => conclude (ev.result.mapError EvaluationError.message)
  | .ok (.subprocess p) =>
    let p : Subprocess := { p with command := s.commandFor t }
    let found ← match p.interpreter with
      | .ok (name, _) => host.hasInterpreter name
      | .error _ => pure false
    match p.job (fun _ => found) program (some s.initialEnv) with
    | .error e => conclude (.error e.message)
    | .ok job => conclude ((p.conclude (← host.perform job)).mapError InterpreterError.message)

/-- Writes the renderings, one after the other; `none` if all could be written. -/
def writeAll (host : Host m) (s : Settings) (source : Text) : List (Target × Text) → m (Option Ending)
  | [] => return none
  | (t, text) :: rest => do
    match ← host.writeOutput text source s.outDir t.dialect.extension with
    | (_, some e) =>
      return some (← fail host (Text.concat ["fail writing ", t.name, " output: ", e.message]))
    | (path, none) =>
      host.log ("wrote " ++ path)
      if s.debug then host.print (block ("compiled to " ++ t.name) text)
      writeAll host s source rest

/-- Renders a source file, writes the renderings and runs them if asked to. -/
def compile (host : Host m) (s : Settings) (f : Flags) (targets : List Target) (root : Root) :
    m Ending := do
  match ← openSource host f.source with
  | .error e => fail host ("fail obtaining resource: " ++ e.message)
  | .ok scanner =>
    let results := scanner.stream
    let parsed := parseResults root results
    if s.debug then host.print (Scanner.trace (looked results parsed))
    match parsed with
    | .error e => fail host (Text.concat ["fail parsing ", f.source, ": ", e.error.message])
    | .ok n =>
      if s.debug then host.print (block "AST" ((n.mapGaps Empty.elim).dump n.print))
      let texts := targets.map fun t => (t, n.render t.dialect)
      match ← writeAll host s f.source texts with
      | some ending => return ending
      | none =>
        if f.run then texts.forM fun (t, text) => runProgram host s t text
        return .exit 0

/-- Goes on with settings that have been loaded. -/
def proceed (host : Host m) (s : Settings) (f : Flags) : m Ending := do
  match s.validate, s.resolvedTargets, s.resolvedRoot with
  | .error e, _, _ => fail host e.message
  | .ok (), .error e, _ => fail host e.message
  | .ok (), .ok targets, root =>
    if f.interactive then
      return .interactive (Session.start (targets.map Target.name) s.initialEnv s.maxRounds)
    else
      match root with
      | .error e => fail host e.message
      | .ok root => compile host s f targets root

/-- Runs the command line on its arguments, up to the interactive prompt. -/
def run (host : Host m) (arguments : List Text) : m Ending := do
  match Flags.read arguments with
  | .error e => refuse host e
  | .ok f =>
    if f.source.isEmpty && !f.interactive then askForSource host
    else
      match ← Settings.load host f.config with
      | .error e => fail host ("fail loading config: " ++ e.message)
      | .ok s => proceed host (s.withFlags f) f

end CommandLine

end Denotation
