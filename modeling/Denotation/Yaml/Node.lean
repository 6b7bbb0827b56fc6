import Denotation.Yaml.Resolution
import Denotation.Yaml.Token

/-!
# The tree of a settings file

Tokens are composed to a tree. An alias is a reference in it, to a node with an anchor: such a node
may contain references to itself. Whether the keys of a mapping make sense, and what a reference that
leads back to itself means, only matters to those who read that part of the tree.
-/

namespace Denotation.Yaml

/-- A node of the tree. -/
inductive Node where
  /-- A scalar with its tag. -/
  | scalar (tag value : Text)
  /-- A sequence. -/
  | sequence (items : List Node)
  /-- A mapping. -/
  | mapping (entries : List (Node × Node))
  /-- A reference, by its own number among the references, to the node with an anchor of the given
  name and number. -/
  | reference (number : Nat) (name : Text) (anchor : Nat)
  deriving Inhabited

/-- The tree of a document. -/
structure Document where
  /-- The node that holds all others. -/
  root : Node
  /-- The nodes with anchors, by their numbers. -/
  anchored : List (Nat × Node)
  /-- The number of characters of the file. -/
  size : Nat

namespace Node

/-- The start of the tags that have a short form. -/
def commonTags : Text := "tag:yaml.org,2002:"

/-- The short form of a tag. -/
def shortTag (tag : Text) : Text :=
  match Text.dropStart? commonTags tag with
  | some name => Text.ofString "!!" ++ name
  | none => tag

/-- The scalar written with a tag, which may be empty. -/
def ofScalar (tag : Text) (plain : Bool) (value : Text) : Node :=
  if !tag.isEmpty && tag != Text.ofString "!" then .scalar (shortTag tag) value
  else if !plain then .scalar "!!str" value
  else if value == Text.ofString "<<" then .scalar "!!merge" value
  else .scalar (Meaning.ofPlain true value).tag value

/-- The node of a value that is not there. -/
def absent : Node := .scalar "!!null" []

end Node

/-! ## Composition -/

/-- The state of composing a tree. -/
structure Composition where
  /-- The file with the tokens to come. -/
  scan : Scan
  /-- The numbers of the nodes that the anchors name, the last one first. -/
  anchors : List (Text × Nat) := []
  /-- The nodes with anchors that are complete, by their numbers. -/
  anchored : List (Nat × Node) := []
  /-- How many references were read. -/
  references : Nat := 0
  /-- What the handles of tags stand for. -/
  handles : List (Text × Text) :=
    [(Text.ofString "!", Text.ofString "!"), (Text.ofString "!!", Node.commonTags)]

/-- Steps of composing a tree, which fail on tokens that make no document. -/
abbrev Composing := StateT Composition Option

namespace Composing

/-- Reads from the file. -/
def read {α : Type} (r : Scanning α) : Composing α := fun c =>
  (r c.scan).map fun (a, scan) => (a, { c with scan })

/-- The next token. -/
def peek : Composing Token := read .peek

/-- Passes over the next token. -/
def skip : Composing Unit := read .skip

/-- Passes over the next token if it is the given one. -/
def skipIf (t : Token) : Composing Bool := do
  if (← peek) == t then skip; return true else return false

/-- What comes in front of the content of a node. -/
structure Properties where
  /-- The anchor. -/
  anchor : Option Text := none
  /-- The handle and the suffix of the tag. -/
  tag : Option (Text × Text) := none

/-- Reads the anchor and the tag of a node, in either order. -/
def properties : Composing Properties := do
  match ← peek with
  | .anchor name =>
    skip
    match ← peek with
    | .tag handle suffix => skip; return ⟨some name, some (handle, suffix)⟩
    | _ => return ⟨some name, none⟩
  | .tag handle suffix =>
    skip
    match ← peek with
    | .anchor name => skip; return ⟨some name, some (handle, suffix)⟩
    | _ => return ⟨none, some (handle, suffix)⟩
  | _ => return {}

/-- The tag of a node in full, empty if there is none. -/
def fullTag (p : Properties) : Composing Text := do
  match p.tag with
  | none => return []
  | some (handle, suffix) =>
    if handle.isEmpty then return suffix
    else
      match (← get).handles.find? fun (h, _) => h == handle with
      | none => failure
      | some (_, beginning) => return beginning ++ suffix

/-- Notes that a node with the given anchor starts, and gives it a number. -/
def start (name : Text) : Composing Nat := modifyGet fun c =>
  let number := c.anchors.length
  (number, { c with anchors := (name, number) :: c.anchors })

/-- Notes that the node with the given number is complete. -/
def finish (number : Nat) (n : Node) : Composing Unit :=
  modify fun c => { c with anchored := (number, n) :: c.anchored }

/-- The reference of an alias, to the last node with such an anchor. -/
def reference (name : Text) : Composing Node := do
  let c ← get
  let (_, anchor) ← c.anchors.find? fun (a, _) => a == name
  set { c with references := c.references + 1 }
  return .reference c.references name anchor

mutual

/-- Reads a node; block collections only if `block`, and a sequence without indentation of its own
only if `indentless`. -/
def node : Nat → Bool → Bool → Composing Node
  | 0, _, _ => failure
  | fuel + 1, block, indentless => do
    match ← peek with
    | .reference name => skip; reference name
    | _ =>
      let p ← properties
      let tag ← fullTag p
      match p.anchor with
      | none => contents fuel block indentless (!tag.isEmpty) tag
      | some name =>
        let number ← start name
        let n ← contents fuel block indentless true tag
        finish number n
        return n

/-- Reads the content of a node, which may be missing if `optional`. -/
def contents : Nat → Bool → Bool → Bool → Text → Composing Node
  | 0, _, _, _, _ => failure
  | fuel + 1, block, indentless, optional, tag => do
    match ← peek with
    | .scalar plain value => skip; return .ofScalar tag plain value
    | .flowSequenceStart => skip; return .sequence (← flowSequence fuel true)
    | .flowMappingStart => skip; return .mapping (← flowMapping fuel true)
    | .blockEntry =>
      if indentless then return .sequence (← indentlessSequence fuel)
      else missing optional tag
    | .blockSequenceStart =>
      if block then skip; return .sequence (← blockSequence fuel)
      else missing optional tag
    | .blockMappingStart =>
      if block then skip; return .mapping (← blockMapping fuel)
      else missing optional tag
    | _ => missing optional tag

/-- The content of a node that has only a tag or an anchor. -/
def missing (optional : Bool) (tag : Text) : Composing Node :=
  if optional then return .ofScalar tag true [] else failure

/-- Reads the entries of a sequence with indentation of its own. -/
def blockSequence : Nat → Composing (List Node)
  | 0 => failure
  | fuel + 1 => do
    if ← skipIf .blockEnd then return []
    if !(← skipIf .blockEntry) then failure
    let t ← peek
    let item ← if t == .blockEntry || t == .blockEnd then pure Node.absent else node fuel true false
    return item :: (← blockSequence fuel)

/-- Reads the entries of a sequence without indentation of its own. -/
def indentlessSequence : Nat → Composing (List Node)
  | 0 => failure
  | fuel + 1 => do
    if !(← skipIf .blockEntry) then return []
    let t ← peek
    let item ←
      if t == .blockEntry || t == .key || t == .value || t == .blockEnd then pure Node.absent
      else node fuel true false
    return item :: (← indentlessSequence fuel)

/-- Reads the entries of a block mapping. -/
def blockMapping : Nat → Composing (List (Node × Node))
  | 0 => failure
  | fuel + 1 => do
    if ← skipIf .blockEnd then return []
    if !(← skipIf .key) then failure
    let k ← blockPart fuel
    let v ← if ← skipIf .value then blockPart fuel else pure Node.absent
    return (k, v) :: (← blockMapping fuel)

/-- Reads a key or a value of a block mapping. -/
def blockPart : Nat → Composing Node
  | 0 => failure
  | fuel + 1 => do
    let t ← peek
    if t == .key || t == .value || t == .blockEnd then return Node.absent
    else node fuel true true

/-- Reads the entries of a flow sequence; an entry with a colon is a mapping of its own. -/
def flowSequence : Nat → Bool → Composing (List Node)
  | 0, _ => failure
  | fuel + 1, first => do
    if ← skipIf .flowSequenceEnd then return []
    if !first then
      if !(← skipIf .flowEntry) then failure
      if ← skipIf .flowSequenceEnd then return []
    if ← skipIf .key then
      let t ← peek
      let k ←
        if t == .value || t == .flowEntry || t == .flowSequenceEnd then
          -- The token in place of the key is lost.
          skip
          pure Node.absent
        else node fuel false false
      let v ← flowValue fuel .flowSequenceEnd
      return .mapping [(k, v)] :: (← flowSequence fuel false)
    else
      let item ← node fuel false false
      return item :: (← flowSequence fuel false)

/-- Reads the value after a key of a flow collection that ends with the given token. -/
def flowValue : Nat → Token → Composing Node
  | 0, _ => failure
  | fuel + 1, closing => do
    if ← skipIf .value then
      let t ← peek
      if t == .flowEntry || t == closing then return Node.absent else node fuel false false
    else return Node.absent

/-- Reads the entries of a flow mapping. -/
def flowMapping : Nat → Bool → Composing (List (Node × Node))
  | 0, _ => failure
  | fuel + 1, first => do
    if ← skipIf .flowMappingEnd then return []
    if !first then
      if !(← skipIf .flowEntry) then failure
      if ← skipIf .flowMappingEnd then return []
    if ← skipIf .key then
      let t ← peek
      let k ←
        if t == .value || t == .flowEntry || t == .flowMappingEnd then pure Node.absent
        else node fuel false false
      let v ← flowValue fuel .flowMappingEnd
      return (k, v) :: (← flowMapping fuel false)
    else
      let k ← node fuel false false
      return (k, Node.absent) :: (← flowMapping fuel false)

end

/-- Reads the directives in front of a document; `versions` says whether one of the version was
read, and `own` holds the handles that were given a meaning. -/
def directives : Nat → Bool → List Text → Composing Unit
  | 0, _, _ => failure
  | fuel + 1, versions, own => do
    match ← peek with
    | .version major minor =>
      if versions || major != 1 || minor != 1 then failure
      skip
      directives fuel true own
    | .tagHandle handle beginning =>
      if own.contains handle then failure
      skip
      modify fun c => { c with handles := (handle, beginning) :: c.handles }
      directives fuel versions (handle :: own)
    | _ => return

/-- Reads the first document; `none` if there is none. What follows the document only has to be
readable so far that the end of the document is certain. -/
def document (fuel : Nat) : Composing (Option Node) := do
  if !(← skipIf .start) then failure
  match ← peek with
  | .ending => return none
  | .version _ _ | .tagHandle _ _ | .documentStart =>
    directives fuel false []
    if !(← skipIf .documentStart) then failure
    let n ← match ← peek with
      | .version _ _ | .tagHandle _ _ | .documentStart | .documentEnd | .ending => pure Node.absent
      | _ => node fuel true false
    let _ ← peek
    return some n
  | _ =>
    let n ← node fuel true false
    let _ ← peek
    return some n

end Composing

/-- The tree of the first document of a file, or `none` if there is no document in it; fails if the
file cannot be read. -/
def document? (t : Text) : Option (Option Document) := do
  let scan := Scan.ofText t
  let size := scan.cursor.size
  let (root, c) ← (Composing.document (16 * size + 64)).run { scan }
  return root.map fun root => { root, anchored := c.anchored, size }

end Denotation.Yaml
