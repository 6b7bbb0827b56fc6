import Denotation.Files.Basic
import Denotation.Files.Path

/-!
# A tree of files in memory

A tree holds directories and files by the names that lead to them from the root, which is always
there. A path is followed name by name from a working directory; each name on the way must be a
directory's. The faults are those that a file system answers with.
-/

namespace Denotation

/-- Directories and files. -/
structure FileTree where
  /-- The directories, each by the names that lead to it. -/
  directories : List (List Text)
  /-- The files with their contents, each by the names that lead to it. -/
  files : List (List Text × Text)

/-- What stands at some place of a tree. -/
inductive FileTree.Entry where
  | directory
  | file (content : Text)

namespace FileTree

/-- The tree with nothing in it. -/
def empty : FileTree := ⟨[], []⟩

/-- What stands at the end of a list of names. -/
def entry? (t : FileTree) (place : List Text) : Option Entry :=
  if place.isEmpty || t.directories.contains place then some .directory
  else (t.files.find? fun (p, _) => p == place).map fun (_, content) => .file content

/-- Whether a directory stands at the end of a list of names. -/
def isDirectory (t : FileTree) (place : List Text) : Bool :=
  place.isEmpty || t.directories.contains place

/-- The tree with a directory at a place and at every place on the way to it. -/
def addDirectory (t : FileTree) (place : List Text) : FileTree :=
  let ways := (List.range place.length).map fun n => place.take (n + 1)
  { t with directories := t.directories ++ ways.filter fun p => !t.directories.contains p }

/-- The tree with a file at a place, in place of what the file held before. -/
def putFile (t : FileTree) (place : List Text) (content : Text) : FileTree :=
  { t with files := (t.files.filter fun (p, _) => p != place) ++ [(place, content)] }

/-- The tree with a file at a place and directories on the way to it. -/
def addFile (t : FileTree) (place : List Text) (content : Text) : FileTree :=
  (t.addDirectory place.dropLast).putFile place content

/-- Follows names from a directory. Every name but the last has to lead to something; the last may
lead to a place where nothing stands. -/
def follow (t : FileTree) : List Text → List Text → Except FileFault (List Text)
  | place, [] => .ok place
  | place, name :: rest =>
    if !t.isDirectory place then
      .error (if (t.entry? place).isSome then .notDirectory else .notFound)
    else if name == Path.here then t.follow place rest
    else if name == Path.above then t.follow place.dropLast rest
    else if 255 < name.length then .error .nameTooLong
    else t.follow (place ++ [name]) rest

/-- The place that a path leads to from a working directory. -/
def locate (t : FileTree) (working : List Text) (path : Text) : Except FileFault (List Text) :=
  if path.isEmpty then .error .notFound
  else if path.contains 0 then .error .invalidName
  else if 4096 ≤ path.length then .error .nameTooLong
  else
    t.follow (if Path.isAbsolute path then [] else working)
      ((Text.splitOn Path.slash path).filter fun name => !name.isEmpty)

/-- Whether a path ends in a slash, which only a directory's may. -/
def endsInSlash (path : Text) : Bool := path.getLast? == some Path.slash

/-- What stands at the end of a path. -/
def find (t : FileTree) (working : List Text) (path : Text) : Except FileFault Entry := do
  let place ← t.locate working path
  match t.entry? place with
  | none => throw .notFound
  | some .directory => return .directory
  | some (.file content) =>
    if endsInSlash path then throw .notDirectory else return .file content

/-- The text of a file. -/
def readFile (t : FileTree) (working : List Text) (path : Text) : Except FileError Text :=
  match t.find working path with
  | .error fault => .error ⟨.open, path, fault⟩
  | .ok .directory => .error ⟨.read, path, .isDirectory⟩
  | .ok (.file content) => .ok content

/-- The tree after a text was written to a file. -/
def writeFile (t : FileTree) (working : List Text) (path content : Text) :
    Except FileError FileTree :=
  match t.locate working path with
  | .error fault => .error ⟨.open, path, fault⟩
  | .ok place =>
    if endsInSlash path || t.isDirectory place then .error ⟨.open, path, .isDirectory⟩
    else .ok (t.putFile place content)

/-- The tree after one directory was made, or was there already. -/
def makeDirectory (t : FileTree) (working : List Text) (path : Text) : Except FileError FileTree :=
  match t.locate working path with
  | .error fault => .error ⟨.makeDirectory, path, fault⟩
  | .ok place =>
    match t.entry? place with
    | none => .ok { t with directories := t.directories ++ [place] }
    | some .directory => .ok t
    | some (.file _) => .error ⟨.makeDirectory, path, .exists⟩

/-- The path without its last name and the slashes around it; a single slash in front is not kept. -/
def parentPath (path : Text) : Text := (Path.upToSlash (Path.trimSlashes path)).dropLast

/-- The tree after a directory and all directories on the way to it were made, going at most `depth`
names back. -/
def makeDirectoriesFrom : Nat → FileTree → List Text → Text → Except FileError FileTree
  | 0, t, working, path => t.makeDirectory working path
  | depth + 1, t, working, path =>
    match t.find working path with
    | .ok .directory => .ok t
    | .ok (.file _) => .error ⟨.makeDirectory, path, .notDirectory⟩
    | .error _ => do
      let parent := parentPath path
      let t ← if parent.isEmpty then pure t else makeDirectoriesFrom depth t working parent
      t.makeDirectory working path

/-- The tree after a directory and all directories on the way to it were made. -/
def makeDirectories (t : FileTree) (working : List Text) (path : Text) : Except FileError FileTree :=
  makeDirectoriesFrom path.length t working path

/-- The files that are new or have another text than in an earlier tree. -/
def changes (t earlier : FileTree) : List (List Text × Text) :=
  t.files.filter fun file => !earlier.files.contains file

end FileTree

end Denotation
