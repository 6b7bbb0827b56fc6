import Denotation.CommandLine.Host
import Denotation.Files.Tree

/-!
# Rehearsals

A host without a world: files are kept in memory, interpreters are known by what they answer to any
job, and everything printed is kept in order.
-/

namespace Denotation

/-- A text that was printed. -/
inductive Printed where
  /-- Printed as it is. -/
  | plain (t : Text)
  /-- Printed as a line with the time in front. -/
  | logged (t : Text)

/-- The state of a rehearsal. -/
structure Rehearsal where
  /-- The files. -/
  files : FileTree
  /-- The names that lead to the working directory. -/
  working : List Text
  /-- The interpreters that can be found, with what they answer. -/
  interpreters : List (Text × JobResult)
  /-- What was printed, in order. -/
  output : List Printed := []
  /-- What was printed as complaints. -/
  errors : Text := []
  /-- The jobs that interpreters were given, in order. -/
  jobs : List Job := []

namespace Rehearsal

/-- What an interpreter answers. -/
def answer? (r : Rehearsal) (command : Text) : Option JobResult :=
  (r.interpreters.find? fun (name, _) => name == command).map Prod.snd

/-- Takes a change of the files into the state. -/
def change (step : Rehearsal → Except FileError FileTree) : StateM Rehearsal (Except FileError Unit) :=
  fun r => match step r with
    | .error e => (.error e, r)
    | .ok files => (.ok (), { r with files })

/-- The host of rehearsals. -/
def host : Host (StateM Rehearsal) where
  readFile path := fun r => (r.files.readFile r.working path, r)
  makeDirectories path := change fun r => r.files.makeDirectories r.working path
  writeFile path content := change fun r => r.files.writeFile r.working path content
  workingDirectory := fun r => (Path.slash :: Text.join [Path.slash] r.working, r)
  hasInterpreter command := fun r => ((r.answer? command).isSome, r)
  perform job := fun r => ((r.answer? job.command).getD ⟨0, [], []⟩, { r with jobs := r.jobs ++ [job] })
  print t := modify fun r => { r with output := r.output ++ [.plain t] }
  log t := modify fun r => { r with output := r.output ++ [.logged t] }
  complain t := modify fun r => { r with errors := r.errors ++ t }

end Rehearsal

end Denotation
