import Denotation.CommandLine.Host
import Denotation.Settings.Reading

/-!
# Loading settings

Settings come from a file that is named, or from the usual file of the working directory if there is
one. A directory for output that does not start at the root starts at the directory of the file.
-/

namespace Denotation

/-- Why settings could not be loaded. -/
inductive LoadError where
  /-- The file could not be read. -/
  | file (e : FileError)
  /-- The file holds no settings. -/
  | unreadable
  /-- The settings have problems. -/
  | invalid (e : InvalidSettings)

/-- The text of the error. -/
def LoadError.message : LoadError → Text
  | .file e => "failed to read config: " ++ e.message
  | .unreadable => "failed to parse config: yaml: not a settings file"
  | .invalid e => e.message

namespace Settings

/-- The name of the usual file. -/
def usualFile : Text := "denote.yaml"

/-- The settings as read from a file in the given directory. -/
def placedIn (s : Settings) (directory : Text) : Settings :=
  { s with
    baseDir := directory
    outDir :=
      if s.outDir.isEmpty || Path.isAbsolute s.outDir then s.outDir
      else Path.append directory s.outDir }

/-- The settings of the text of a file at a path from the root. -/
def ofFile (path text : Text) : Except LoadError Settings :=
  match defaults.read? text with
  | none => .error .unreadable
  | some s =>
    let s := s.placedIn (Path.directory path)
    match s.validate with
    | .error e => .error (.invalid e)
    | .ok () => .ok s

/-- Whether the fault is that there is no such file. -/
def isMissing : FileFault → Bool
  | .notFound => true
  | _ => false

/-- Loads the settings of the named file, or of the usual one if the name is empty. Only the usual
file may be missing. -/
def load {m : Type → Type} [Monad m] (host : Host m) (name : Text) :
    m (Except LoadError Settings) := do
  let path := if name.isEmpty then usualFile else name
  match ← host.readFile path with
  | .error e =>
    if name.isEmpty && isMissing e.fault then return .ok defaults else return .error (.file e)
  | .ok text => return ofFile (Path.absolute (← host.workingDirectory) path) text

end Settings

end Denotation
