import Denotation.Execution.Interpreter
import Denotation.Files.Basic
import Denotation.Files.Path

/-!
# Hosts

What the command line needs from the world around it. Everything the command line does is written
over an arbitrary host, so that it can be run on real files and be studied without them.
-/

namespace Denotation

/-- What the command line needs from the world around it, as actions of a monad. -/
structure Host (m : Type → Type) where
  /-- The text of the file at a path. -/
  readFile : Text → m (Except FileError Text)
  /-- Makes a directory and those on the way to it. -/
  makeDirectories : Text → m (Except FileError Unit)
  /-- Writes a text to the file at a path. -/
  writeFile : Text → Text → m (Except FileError Unit)
  /-- The path of the working directory. -/
  workingDirectory : m Text
  /-- Whether an interpreter can be found by a name. -/
  hasInterpreter : Text → m Bool
  /-- Has an interpreter do a job. -/
  perform : Job → m JobResult
  /-- Prints a text. -/
  print : Text → m Unit
  /-- Prints a line with the time in front. -/
  log : Text → m Unit
  /-- Prints a text as a complaint. -/
  complain : Text → m Unit

variable {m : Type → Type} [Monad m]

/-- Writes the rendering of a source file; the result is the path that was chosen for it, unless no
directory could be made, and what went wrong. -/
def Host.writeOutput (host : Host m) (text source outDir suffix : Text) :
    m (Text × Option FileError) := do
  let made ← if outDir.isEmpty then pure (.ok ()) else host.makeDirectories outDir
  match made with
  | .error e => return ([], some e)
  | .ok () =>
    let path := Path.output source outDir suffix
    match ← host.writeFile path (text ++ "\n") with
    | .error e => return (path, some e)
    | .ok () => return (path, none)

end Denotation
