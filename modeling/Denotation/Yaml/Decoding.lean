import Denotation.Machine.Value
import Denotation.Yaml.Node

/-!
# Reading values from the tree of a settings file

What a node reads as depends on what is wanted: a text can be read from any scalar, a truth value or
an integer only from what stands for one. References are followed, but not from inside what they
refer to, and not without end: if nearly all that was read lies behind references, reading fails.

A mapping may name others whose entries are merged into it. They are read after its own entries and
give way to these, and each of them gives way to those named before.
-/

namespace Denotation.Yaml

/-! ## Following references -/

/-- How many nodes were read. -/
structure Tally where
  /-- All nodes that were read; those read twice count twice. -/
  nodes : Nat := 0
  /-- Those of them that were read behind references. -/
  referred : Nat := 0

/-- Whether the nodes behind references have too large a share: more than 99 of 100, and of documents
that read as very many nodes more than 10 of 100. -/
def Tally.isExcessive (t : Tally) : Bool :=
  let low := 400000
  let high := 4000000
  100 < t.referred && 1000 < t.nodes &&
    if t.nodes ≤ low then 99 * t.nodes < 100 * t.referred
    else if high ≤ t.nodes then 10 * t.nodes < 100 * t.referred
    else t.nodes * (99 * (high - low) - 89 * (t.nodes - low)) < 100 * (high - low) * t.referred

/-- Where a node is read. -/
structure Surroundings where
  /-- The nodes with anchors, by their numbers. -/
  anchored : List (Nat × Node)
  /-- The numbers of the references that led to the node. -/
  followed : List Nat := []

/-- The node that an anchor of the given number names. -/
def Surroundings.target? (s : Surroundings) (anchor : Nat) : Option Node :=
  (s.anchored.find? fun (n, _) => n == anchor).map Prod.snd

/-- Steps of reading values, which fail on nodes that do not fit. -/
abbrev Decoding := ReaderT Surroundings (StateT Tally Option)

namespace Decoding

/-- Counts a node. -/
def count : Decoding Unit := do
  let more := if (← read).followed.isEmpty then 0 else 1
  let t ← get
  let t : Tally := ⟨t.nodes + 1, t.referred + more⟩
  if t.isExcessive then failure
  set t

/-- Reads a node that is no reference, or the one that a reference leads to. -/
def visit {α : Type} (n : Node) (k : Node → Decoding α) : Decoding α := do
  count
  match n with
  | .reference number _ anchor =>
    let s ← read
    if s.followed.contains number then failure
    let target ← s.target? anchor
    withReader (fun s => { s with followed := number :: s.followed }) do
      count
      k target
  | n => k n

/-! ## Scalars -/

/-- Reads what a scalar stands for. -/
def meaning (n : Node) : Decoding Meaning :=
  visit n fun
    | .scalar tag value => Meaning.read? tag value
    | _ => failure

/-- Reads a text; `none` for the absent value. -/
def text (n : Node) : Decoding (Option Text) :=
  visit n fun
    | .scalar tag value => do
      match ← Meaning.read? tag value with
      | .null => return none
      | .text t => return some t
      | _ => return some value
    | _ => failure

/-- The words that read as true where a truth value is wanted. -/
def affirmations : List Text := ["y", "Y", "yes", "Yes", "YES", "on", "On", "ON"]

/-- The words that read as false where a truth value is wanted. -/
def denials : List Text := ["n", "N", "no", "No", "NO", "off", "Off", "OFF"]

/-- Reads a truth value; `none` for the absent value. -/
def bool (n : Node) : Decoding (Option Bool) := do
  match ← meaning n with
  | .null => return none
  | .boolean b => return some b
  | .text t =>
    if affirmations.contains t then return some true
    else if denials.contains t then return some false
    else failure
  | _ => failure

/-- The integer part of a number if it is not too large; what is too small, and what no 64-bit integer
is near to, reads as the smallest one. -/
def wholePart? (d : Double) : Option Int :=
  if d.isNaN then none
  else if d.isInfinite then if d.isNegative then some Int64.minValue.toInt else none
  else
    let n := d.truncate
    if Int64.maxValue.toInt + 1 < n then none
    else if Int64.minValue.toInt ≤ n ∧ n ≤ Int64.maxValue.toInt then some n
    else some Int64.minValue.toInt

/-- Reads an integer; `none` for the absent value. -/
def int (n : Node) : Decoding (Option Int) := do
  match ← meaning n with
  | .null => return none
  | .integer n => return some n
  | .real d => return some (← wholePart? d)
  | _ => failure

/-- Reads a list of texts; absent items are passed over, and an absent list is empty. -/
def texts (n : Node) : Decoding (List Text) :=
  visit n fun
    | .sequence items => return (← items.mapM text).filterMap id
    | .scalar tag value => do
      match ← Meaning.read? tag value with
      | .null => return []
      | _ => failure
    | _ => failure

/-! ## Mappings -/

/-- How a node is written, as far as it decides whether two keys are the same. -/
inductive Spelling where
  | scalar (value : Text)
  | sequence
  | mapping
  | reference (name : Text)
  deriving DecidableEq

/-- How a node is written. -/
def spelling : Node → Spelling
  | .scalar _ value => .scalar value
  | .sequence _ => .sequence
  | .mapping _ => .mapping
  | .reference _ name _ => .reference name

/-- Whether two of the spellings are the same. -/
def repeats : List Spelling → Bool
  | [] => false
  | s :: rest => rest.contains s || repeats rest

/-- Whether the node is the key of mappings to merge. -/
def isMergeKey : Node → Bool
  | .scalar tag value => value == Text.ofString "<<" && tag == Text.ofString "!!merge"
  | _ => false

/-- Whether the node is a mapping, or a reference to one. -/
def isMapping (s : Surroundings) : Node → Bool
  | .mapping _ => true
  | .reference _ _ anchor => match s.target? anchor with
    | some (.mapping _) => true
    | _ => false
  | _ => false

/-- The mappings to merge that the value of a merge key names: itself or the items of a sequence. -/
def merged (n : Node) : Decoding (List Node) := do
  let s ← read
  match n with
  | .sequence items => if items.all (isMapping s) then return items else failure
  | n => if isMapping s n then return [n] else failure

/-- How the entries of a mapping are read into a result. -/
structure Intake (κ α : Type) where
  /-- Reads a key; `none` for the absent value, with which the entry is passed over. -/
  key : Node → Decoding (Option κ)
  /-- What the key stands for when it is compared with those of other mappings. -/
  meaning : κ → Meaning
  /-- Whether the key may occur only once in a mapping, however it is written. -/
  once : κ → Bool
  /-- Reads the value of a key into the result, in a mapping that is merged into another if so
  said. -/
  entry : Bool → κ → Node → α → Decoding α

/-- The keys that entries to come give way to; `none` outside of mappings that are merged. -/
abbrev Precedence := Option (List Meaning)

section Mapping

variable {κ α : Type} (t : Intake κ α)

/-- Reads the own entries of a mapping, of which those with the keys `done` came before. -/
def ownEntries (p : Precedence) (done : List Meaning) (a : α) :
    List (Node × Node) → Decoding (α × Precedence)
  | [] => return (a, p)
  | (k, v) :: rest => do
    if isMergeKey k then ownEntries p done a rest
    else
      match ← t.key k with
      | none => ownEntries p done a rest
      | some key =>
        let m := t.meaning key
        if p.any fun keys => keys.any m.same then ownEntries p done a rest
        else
          if t.once key && done.any m.same then failure
          let a ← t.entry p.isSome key v a
          ownEntries (p.map (m :: ·)) (m :: done) a rest

/-- Reads the entries of a mapping and those merged into it, which lie in one another at most `fuel`
deep. -/
def mappingFrom : Nat → Precedence → α → List (Node × Node) → Decoding (α × Precedence)
  | 0, _, _, _ => failure
  | fuel + 1, p, a, entries => do
    if repeats (entries.map fun (k, _) => spelling k) then failure
    let (a, p) ← ownEntries t p [] a entries
    match entries.find? fun (k, _) => isMergeKey k with
    | none => return (a, p)
    | some (_, v) =>
      let keys ← match p with
        | some keys => pure keys
        | none => entries.mapM fun (k, _) => Decoding.meaning k
      (← merged v).foldlM
        (fun (a, p) n =>
          visit n fun
            | .mapping entries => mappingFrom fuel p a entries
            | _ => failure)
        (a, some keys)

/-- Reads the entries of a mapping and those merged into it. -/
def mapping (fuel : Nat) (a : α) (entries : List (Node × Node)) : Decoding α := do
  return (← mappingFrom t fuel none a entries).1

end Mapping

/-! ## Values -/

/-- The value of a scalar in the environment. -/
def scalarValue : Meaning → Value
  | .null => .nil
  | .boolean b => .bool b
  | .integer n => .word n
  | .natural _ => .other .natural
  | .real d => .double d
  | .time => .other .time
  | .text t => .text t

/-- Reads entries into bindings with the given way of reading values. -/
def bindings (value : Node → Decoding Value) : Intake Text Bindings where
  key := text
  meaning := .text
  once _ := false
  entry _ name v b := return b.insert name (← value v)

/-- Reads entries of any keys only to see that they can be read. -/
def anyEntries (value : Node → Decoding Value) : Intake Meaning Unit where
  key n := return some (← meaning n)
  meaning := id
  once _ := false
  entry _ _ v _ := do let _ ← value v

/-- Whether the node, or the one that it refers to, is a key of a mapping of texts. -/
def isTextKey (s : Surroundings) : Node → Bool
  | .scalar tag _ => isText tag
  | .reference _ _ anchor => match s.target? anchor with
    | some (.scalar tag _) => isText tag
    | _ => false
  | _ => false
where
  /-- Whether the tag is that of a text or of a merge key. -/
  isText (tag : Text) : Bool := tag == Text.ofString "!!str" || tag == Text.ofString "!!merge"

/-- Reads a value of the environment, whose parts lie in one another at most `fuel` deep. -/
def value : Nat → Node → Decoding Value
  | 0, _ => failure
  | fuel + 1, n =>
    visit n fun
      | .scalar tag value => return scalarValue (← Meaning.read? tag value)
      | .sequence items => return .array (← items.mapM (value fuel))
      | .mapping entries => do
        let s ← read
        if entries.all fun (k, _) => isTextKey s k then
          return .map (← mapping (bindings (value fuel)) fuel [] entries)
        else
          mapping (anyEntries (value fuel)) fuel () entries
          return .other .mixedMap
      | .reference .. => failure

end Decoding

/-- Runs steps on a document. -/
def Document.decode {α : Type} (d : Document) (steps : Decoding α) : Option α :=
  (steps.run { anchored := d.anchored } |>.run {}).map Prod.fst

/-- How deep nodes may lie in one another when references are followed: reading fails before as many
nodes were read. -/
def Document.depth (d : Document) : Nat := 400 * d.size + 3000

end Denotation.Yaml
