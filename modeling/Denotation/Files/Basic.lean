import Denotation.Text.Basic

/-!
# Files

What can go wrong with a file, and a file as a text.
-/

namespace Denotation

/-- Why something could not be done with a path. -/
inductive FileFault where
  | notFound
  | notDirectory
  | isDirectory
  | exists
  | nameTooLong
  | invalidName
  | other (reason : Text)

/-- The text of the fault. -/
def FileFault.message : FileFault → Text
  | .notFound => "no such file or directory"
  | .notDirectory => "not a directory"
  | .isDirectory => "is a directory"
  | .exists => "file exists"
  | .nameTooLong => "file name too long"
  | .invalidName => "invalid argument"
  | .other reason => reason

/-- What was to be done with a path. -/
inductive FileAction where
  | open
  | read
  | makeDirectory

/-- The name of the action. -/
def FileAction.name : FileAction → Text
  | .open => "open"
  | .read => "read"
  | .makeDirectory => "mkdir"

/-- Something that could not be done with a path. -/
structure FileError where
  /-- What was to be done. -/
  action : FileAction
  /-- The path. -/
  path : Text
  /-- Why it could not be done. -/
  fault : FileFault

/-- The text of the error. -/
def FileError.message (e : FileError) : Text :=
  Text.concat [e.action.name, " ", e.path, ": ", e.fault.message]

end Denotation
