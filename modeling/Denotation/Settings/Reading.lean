import Denotation.Settings.Basic
import Denotation.Yaml.Decoding

/-!
# Reading settings

Settings are read from the tree of a file over settings that hold where the file says nothing. What
the file says has to fit. A value that is absent changes nothing, except that absent targets are no
targets at all, and so with the environment and the interpreters.
-/

namespace Denotation.Settings

open Yaml Decoding

/-- Reads a mapping into a result of which the absent value makes `absent`. -/
def part {α : Type} (n : Yaml.Node) (absent : α)
    (entries : List (Yaml.Node × Yaml.Node) → Decoding α) : Decoding α :=
  visit n fun
    | .mapping es => entries es
    | .scalar tag value => do
      match ← Meaning.read? tag value with
      | .null => return absent
      | _ => failure
    | _ => failure

/-- Reads the entries of a mapping by fields of the given names, each of which may occur only once.
Entries of other names are passed over. -/
def fields {α : Type} (names : List Text) (field : Text → Yaml.Node → α → Decoding α) :
    Intake Text α where
  key := text
  meaning := .text
  once := names.contains
  entry _ name n a := if names.contains name then field name n a else return a

/-- The interpreters with one more, which replaces any of the same name. -/
def withInterpreter (name command : Text) : List (Text × Text) → List (Text × Text)
  | [] => [(name, command)]
  | (n, c) :: rest =>
    if n == name then (name, command) :: rest else (n, c) :: withInterpreter name command rest

/-- Reads entries into interpreters. An absent one is empty, but does not replace one of the same name
that was read before the mapping was merged. -/
def interpreterEntries : Intake Text (List (Text × Text)) where
  key := text
  meaning := .text
  once _ := false
  entry merged name n i := do
    match ← text n with
    | some command => return withInterpreter name command i
    | none =>
      if merged && i.any fun (other, _) => other == name then return i
      else return withInterpreter name [] i

/-- Reads a field of the part on how programs are run. -/
def runField (depth : Nat) (name : Text) (n : Yaml.Node) (s : Settings) : Decoding Settings := do
  if name == Text.ofString "env" then
    return { s with env := ← part n [] (mapping (bindings (value depth)) depth s.env) }
  else if name == Text.ofString "max_rounds" then
    return { s with maxRounds := (← int n).getD s.maxRounds }
  else
    return { s with interpreters := ← part n [] (mapping interpreterEntries depth s.interpreters) }

/-- The names of the fields of the part on how programs are run. -/
def runFields : List Text := ["env", "max_rounds", "interpreters"]

/-- Reads a field. -/
def field (depth : Nat) (name : Text) (n : Yaml.Node) (s : Settings) : Decoding Settings := do
  if name == Text.ofString "targets" then return { s with targets := ← texts n }
  else if name == Text.ofString "root" then return { s with root := (← text n).getD s.root }
  else if name == Text.ofString "out_dir" then return { s with outDir := (← text n).getD s.outDir }
  else if name == Text.ofString "debug" then return { s with debug := (← bool n).getD s.debug }
  else part n s (mapping (fields runFields (runField depth)) depth s)

/-- The names of the fields. -/
def fieldNames : List Text := ["targets", "root", "out_dir", "debug", "run"]

/-- Reads the settings of a document; the document counts as a node. -/
def ofDocument? (s : Settings) (d : Document) : Option Settings :=
  d.decode do
    count
    part d.root s (mapping (fields fieldNames (field d.depth)) d.depth s)

/-- The settings of a file over settings that hold where the file says nothing. -/
def read? (s : Settings) (file : Text) : Option Settings := do
  match ← document? file with
  | none => return s
  | some d => s.ofDocument? d

end Denotation.Settings
