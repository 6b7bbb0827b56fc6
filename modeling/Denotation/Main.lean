import Denotation.CommandLine.Basic

/-!
# The program

The command line on real files. Interpreters of other languages are not called from here: a rendering
that needs one is answered as if it could not be found.
-/

namespace Denotation

/-- A text as a string, with characters in place of bytes that are none. -/
def Text.toString (t : Text) : String := String.ofList t.chars

/-- The bytes of a text. -/
def Text.toBytes (t : Text) : ByteArray := ⟨t.toArray⟩

/-- A fault that the system reports. -/
def FileFault.ofSystem : IO.Error → FileFault
  | .noFileOrDirectory .. => .notFound
  | .inappropriateType _ code _ => if code == 20 then .notDirectory else .isDirectory
  | .alreadyExists .. => .exists
  | .invalidArgument .. => .invalidName
  | e => .other (Text.ofString e.toString)

/-- The result of an action on a path. -/
def attempt {α : Type} (action : FileAction) (path : Text) (act : IO α) : IO (Except FileError α) := do
  try
    return .ok (← act)
  catch e =>
    return .error ⟨action, path, .ofSystem e⟩

/-- Reads a file. -/
def readWhole (path : Text) : IO (Except FileError Text) := do
  match ← attempt .open path (IO.FS.Handle.mk path.toString .read) with
  | .error e => return .error e
  | .ok handle =>
    attempt .read path do return (← handle.readBinToEnd).toList

/-- Prints a text to a stream. -/
def printTo (stream : IO IO.FS.Stream) (t : Text) : IO Unit := do
  let out ← stream
  out.write t.toBytes
  out.flush

/-- The system as a host. -/
def systemHost : Host IO where
  readFile := readWhole
  makeDirectories path := attempt .makeDirectory path (IO.FS.createDirAll path.toString)
  writeFile path content := attempt .open path (IO.FS.writeBinFile path.toString content.toBytes)
  workingDirectory := return Text.ofString (← IO.currentDir).toString
  hasInterpreter _ := return false
  perform _ := return ⟨1, [], []⟩
  print := printTo IO.getStdout
  log t := printTo IO.getStdout (if t.getLast? == some 0x0A then t else t ++ [0x0A])
  complain := printTo IO.getStderr

/-- The path of the file that keeps the history. -/
def historyPath : IO Text := do
  let directory := (← IO.getEnv "TMPDIR").getD "/tmp"
  return Path.append (Text.ofString directory) ".denote_history"

/-- Takes lines at the prompt until one says to leave; the result says whether the input goes on. -/
def takeLines (p : Prompt) : List Text → IO (Prompt × Bool)
  | [] => return (p, true)
  | line :: rest => do
    match p.take ampleFuel line with
    | none | some .leave => return (p, false)
    | some (.stay output p) =>
      printTo IO.getStdout output
      if rest.isEmpty then return (p, true)
      printTo IO.getStdout Prompt.mark
      takeLines p rest

/-- Runs the prompt until the input ends or a line says to leave. -/
partial def prompt (p : Prompt) : IO Prompt := do
  printTo IO.getStdout Prompt.mark
  let line ← (← IO.getStdin).getLine
  if line.isEmpty then
    printTo IO.getStdout "\n"
    return p
  let (p, more) ← takeLines p ((lines (Text.ofString line)).map Prod.fst)
  if more then prompt p else return p

/-- Opens the interactive prompt. -/
def interact (s : Session) : IO Unit := do
  let path ← historyPath
  let history := match ← readWhole path with
    | .ok text => History.ofText text
    | .error _ => []
  printTo IO.getStdout Prompt.greeting
  let p ← prompt ⟨s, history⟩
  let _ ← systemHost.writeFile path p.history.text

end Denotation

/-- Runs the command line. -/
def main (arguments : List String) : IO UInt32 := do
  match ← Denotation.CommandLine.run Denotation.systemHost (arguments.map Denotation.Text.ofString) with
  | .exit status => return status.toUInt32
  | .interactive s =>
    Denotation.interact s
    return 0
