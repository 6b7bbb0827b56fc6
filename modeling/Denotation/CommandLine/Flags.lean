import Denotation.Settings.Loading

/-!
# Flags

The flags that a command line may start with. A flag is a name after one or two dashes; a flag with a
value takes it after an equals sign or from the next argument, a switch only after an equals sign.
The first argument that is no flag ends them, and so does `--`, which is passed over.
-/

namespace Denotation

/-- The flags of a command line. -/
structure Flags where
  /-- The source file. -/
  source : Text := []
  /-- The file with the settings. -/
  config : Text := []
  /-- The targets, with commas between them. -/
  targets : Text := []
  /-- The directory for output. -/
  outDir : Text := []
  /-- Whether the source is an expression. -/
  expression : Bool := false
  /-- Whether tokens, tree and output are shown. -/
  debug : Bool := false
  /-- Whether the output is run. -/
  run : Bool := false
  /-- Whether the interactive prompt is opened. -/
  interactive : Bool := false

/-- What is wrong with the flags of a command line. -/
inductive FlagError where
  /-- The user asks for help. -/
  | help
  /-- The dashes are not followed by a name. -/
  | badSyntax (argument : Text)
  /-- There is no such flag. -/
  | undefined (name : Text)
  /-- The flag needs a value and there is none. -/
  | missingValue (name : Text)
  /-- The value of a switch is no truth value. -/
  | notBoolean (value name : Text)

/-- The text of the error, empty if the user asks for help. -/
def FlagError.message : FlagError → Text
  | .help => []
  | .badSyntax argument => "bad flag syntax: " ++ argument
  | .undefined name => "flag provided but not defined: -" ++ name
  | .missingValue name => "flag needs an argument: -" ++ name
  | .notBoolean value name =>
    Text.concat ["invalid boolean value ", value.quote, " for -", name, ": parse error"]

namespace Flags

/-- What a flag of some name sets. -/
inductive Setter where
  | value (set : Text → Flags → Flags)
  | switch (set : Bool → Flags → Flags)

/-- A flag that may be given. -/
structure Flag where
  /-- The name of the flag. -/
  name : Text
  /-- What the flag is for. -/
  purpose : Text
  /-- What the flag sets. -/
  setter : Setter

/-- All flags, in the order of their names. -/
def all : List Flag :=
  [⟨"config", Text.concat ["config file (default ./", Settings.usualFile, " when present)"],
      .value fun v f => { f with config := v }⟩,
    ⟨"debug", "dump tokens, AST and output", .switch fun b f => { f with debug := b }⟩,
    ⟨"expr", "parse the source as an expression instead of a statement",
      .switch fun b f => { f with expression := b }⟩,
    ⟨"i", "start the interactive prompt", .switch fun b f => { f with interactive := b }⟩,
    ⟨"out", "directory for emitted files", .value fun v f => { f with outDir := v }⟩,
    ⟨"run", "run each emitted program against run.env", .switch fun b f => { f with run := b }⟩,
    ⟨"targets", "comma separated targets: " ++ Text.join ", " (Target.all.map Target.name),
      .value fun v f => { f with targets := v }⟩]

/-- The lines about a flag: the purpose is on the same line only after a name of one letter. -/
def Flag.usage (flag : Flag) : Text :=
  let kind : Text := match flag.setter with
    | .value _ => " string"
    | .switch _ => ""
  let short := flag.name.length == 1 && kind.isEmpty
  Text.concat ["  -", flag.name, kind, if short then "\t" else "\n    \t", flag.purpose, "\n"]

/-- The lines about all flags. -/
def usage : Text := all.flatMap Flag.usage

/-- The truth value that a text spells. -/
def bool? (t : Text) : Option Bool :=
  if ["1", "t", "T", "TRUE", "true", "True"].any fun w => Text.ofString w == t then some true
  else if ["0", "f", "F", "FALSE", "false", "False"].any fun w => Text.ofString w == t then some false
  else none

/-- The name of a flag and the value after its equals sign, if there is one. -/
def nameAndValue (t : Text) : Text × Option Text :=
  match t.dropWhile (· != 0x3D) with
  | [] => (t, none)
  | _ :: value => (t.takeWhile (· != 0x3D), some value)

/-- The name of a flag with what follows it, for an argument that is a flag; `none` for one that is
not. The argument `--` is a flag without a name. -/
def body? : Text → Option Text
  | 0x2D :: 0x2D :: body => some body
  | 0x2D :: b :: body => some (b :: body)
  | _ => none

/-- The flag of the given name. -/
def find? (name : Text) : Option Flag := all.find? fun flag => flag.name == name

/-- Whether the name asks for help. -/
def asksForHelp (name : Text) : Bool := name == Text.ofString "help" || name == Text.ofString "h"

/-- Sets a switch. -/
def setSwitch (set : Bool → Flags → Flags) (name : Text) (value : Option Text) (f : Flags) :
    Except FlagError Flags :=
  match value with
  | none => .ok (set true f)
  | some v =>
    match bool? v with
    | some b => .ok (set b f)
    | none => .error (.notBoolean v name)

/-- Reads flags, and the first argument after them as the source. -/
def readFrom (f : Flags) : List Text → Except FlagError Flags
  | [] => .ok f
  | argument :: rest =>
    match body? argument with
    | none => .ok { f with source := argument }
    | some [] =>
      -- Two dashes alone.
      .ok { f with source := rest.headD [] }
    | some (b :: body) =>
      if b == 0x2D || b == 0x3D then .error (.badSyntax argument)
      else
        let (name, value) := nameAndValue (b :: body)
        match find? name with
        | none => .error (if asksForHelp name then .help else .undefined name)
        | some flag =>
          match flag.setter with
          | .switch set =>
            match setSwitch set name value f with
            | .error e => .error e
            | .ok f => readFrom f rest
          | .value set =>
            match value, rest with
            | some v, rest => readFrom (set v f) rest
            | none, v :: rest => readFrom (set v f) rest
            | none, [] => .error (.missingValue name)

/-- Reads the arguments of a command line. -/
def read (arguments : List Text) : Except FlagError Flags := readFrom {} arguments

end Flags

/-- The settings with what flags say in place of what a file says. -/
def Settings.withFlags (s : Settings) (f : Flags) : Settings :=
  { s with
    targets := if f.targets.isEmpty then s.targets else Text.splitOn 0x2C f.targets
    outDir := if f.outDir.isEmpty then s.outDir else f.outDir
    root := if f.expression then Root.expression.name else s.root
    debug := s.debug || f.debug }

end Denotation
