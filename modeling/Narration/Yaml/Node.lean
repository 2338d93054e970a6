import Narration.Yaml.Lexer
import Narration.Yaml.Tag

/-!
# Nodes of YAML

A document is made of scalars, sequences and mappings. An alias stands for the node that has its
anchor, perhaps one around it, so nodes are numbered and a collection names its parts by number.

* `Node` : a node with its tag;
* `Graph` : the nodes of a document;
* `Node.Reading` : what is left to read, the handles of tags, the anchors and the nodes so far;
* `Node.Properties` : anchor and tag in front of a node;
* `Node.node`, `Node.blockItems`, `Node.blockEntries`, `Node.flowItems`, `Node.flowEntries` : the
  grammar;
* `Graph.ofTokens` : the only document of some tokens.
-/

namespace Narration.Yaml

/-- A node with its tag. Items and entries are the numbers of other nodes. -/
inductive Node where
  | scalar (tag : Tag) (text : Text)
  | sequence (tag : Tag) (items : List Nat)
  | mapping (tag : Tag) (entries : List (Nat × Nat))
  deriving Repr, Inhabited

/-- What a node is said to be. -/
def Node.tag : Node → Tag
  | .scalar tag _ => tag
  | .sequence tag _ => tag
  | .mapping tag _ => tag

/-- The nodes of a document by number; an empty stream has no root. -/
structure Graph where
  nodes : Array Node
  root : Option Nat
  deriving Repr, Inhabited

namespace Node

/-- What is left to read, and the fault that comes after it; the handles of tags, the numbers of
anchored nodes, the nodes, and how many collections are being read inside each other. -/
structure Reading where
  tokens : List Token
  fault : Option Fault
  handles : List (Text × Text)
  anchors : List (Text × Nat)
  nodes : Array Node
  depth : Nat

/-- A step of reading. -/
abbrev Reader (α : Type) := StateT Reading (Except Fault) α

def fail {α : Type} : Reader α := throw .malformed

/-- The next token. -/
def peek? : Reader (Option Token) := do
  match (← get).tokens, (← get).fault with
  | [], some f => throw f
  | tokens, _ => return tokens.head?

/-- Passes over the next token. -/
def advance : Reader Unit := modify fun r => { r with tokens := r.tokens.drop 1 }

/-- Whether the next token is one of some; it stays. -/
def isNext (ts : List Token) : Reader Bool := return (← peek?).any ts.contains

/-- Passes over a token, if it is the next. -/
def accept (t : Token) : Reader Bool := do
  if ← isNext [t] then advance; return true else return false

/-- Passes over a token, which must be the next. -/
def expect (t : Token) : Reader Unit := do
  if !(← accept t) then fail

/-- Numbers a node. -/
def add (n : Node) : Reader Nat := do
  let number := (← get).nodes.size
  modify fun r => { r with nodes := r.nodes.push n }
  return number

/-- Puts a node in the place of another. -/
def replace (number : Nat) (n : Node) : Reader Unit :=
  modify fun r => { r with nodes := r.nodes.setIfInBounds number n }

/-- A node that is not written. -/
def empty : Reader Nat := add (scalar (Tag.ofPlain []) [])

/-- Anchor and tag in front of a node. -/
structure Properties where
  anchor : Option Text
  tag : Option Text

def readAnchor : Reader (Option Text) := do
  match ← peek? with
  | some (.anchor name) => advance; return some name
  | _ => return none

def readTag : Reader (Option Text) := do
  match ← peek? with
  | some (.tag handle suffix) =>
    advance
    match handle with
    | none => return some suffix
    | some handle =>
      match (← get).handles.lookup handle with
      | some lead => return some (lead ++ suffix)
      | none => fail
  | _ => return none

/-- Anchor and tag, in either order. -/
def readProperties : Reader Properties := do
  match ← readAnchor with
  | some name => return ⟨some name, ← readTag⟩
  | none =>
    let tag ← readTag
    let anchor ← if tag.isSome then readAnchor else pure none
    return ⟨anchor, tag⟩

/-- The tag of a node of which only the kind is known, if none is given. -/
def Properties.tagOr (p : Properties) (kind : Tag) : Tag :=
  match p.tag with
  | none => kind
  | some uri => if uri = ['!'] then kind else Tag.ofUri uri

/-- Numbers a node and ties its anchor to it, which no node may have yet. -/
def addWith (p : Properties) (n : Node) : Reader Nat := do
  match p.anchor with
  | none => add n
  | some name =>
    if ((← get).anchors.lookup name).isSome then fail
    else
      let number ← add n
      modify fun r => { r with anchors := (name, number) :: r.anchors }
      return number

/-- The node that an anchor stands for. -/
def aliased (name : Text) : Reader Nat := do
  match (← get).anchors.lookup name with
  | some number => return number
  | none => fail

/-- A scalar with the given properties. One with the mark alone counts as plain. -/
def scalarWith (p : Properties) (t : Text) (plain : Bool) : Reader Nat :=
  let plain := (plain && p.tag.isNone) || p.tag = some ['!']
  addWith p (scalar (p.tagOr (if plain then Tag.ofPlain t else .text)) t)

/-- How deep collections may stand inside each other. -/
def maxDepth : Nat := 485

/-- Reads what stands in a collection. -/
def inside {α : Type} (r : Reader α) : Reader α := do
  if maxDepth ≤ (← get).depth then throw .nestedTooDeeply
  modify fun r => { r with depth := r.depth + 1 }
  let a ← r
  modify fun r => { r with depth := r.depth - 1 }
  return a

/-- A sequence with the given properties, whose items may refer to it. -/
def sequenceWith (p : Properties) (items : Reader (List Nat)) : Reader Nat := do
  let tag := p.tagOr .sequence
  let number ← addWith p (sequence tag [])
  replace number (sequence tag (← inside items))
  return number

/-- A mapping with the given properties, whose entries may refer to it. -/
def mappingWith (p : Properties) (entries : Reader (List (Nat × Nat))) : Reader Nat := do
  let tag := p.tagOr .mapping
  let number ← addWith p (mapping tag [])
  replace number (mapping tag (← inside entries))
  return number

mutual

/-- A node. In a block, block collections may start; as a mapping's value, a sequence need not be
indented. `fuel` bounds the depth of reading. -/
def node : (fuel : Nat) → (inBlock unindented : Bool) → Reader Nat
  | 0, _, _ => fail
  | fuel + 1, inBlock, unindented => do
    if let some (.alias name) ← peek? then
      advance
      return ← aliased name
    let p ← readProperties
    match ← peek?, inBlock with
    | some .blockEntry, _ =>
      if unindented then sequenceWith p (blockItems fuel true)
      else if p.anchor.isSome || p.tag.isSome then scalarWith p [] true else fail
    | some (.scalar t plain), _ => advance; scalarWith p t plain
    | some .flowSequenceStart, _ => advance; sequenceWith p (flowItems fuel true)
    | some .flowMappingStart, _ => advance; mappingWith p (flowEntries fuel true)
    | some .blockSequenceStart, true => advance; sequenceWith p (blockItems fuel false)
    | some .blockMappingStart, true => advance; mappingWith p (blockEntries fuel)
    | _, _ => if p.anchor.isSome || p.tag.isSome then scalarWith p [] true else fail

/-- A node, or an empty one if one of some tokens follows. -/
def nodeUnless : (fuel : Nat) → (ends : List Token) → (inBlock unindented : Bool) → Reader Nat
  | 0, _, _, _ => fail
  | fuel + 1, ends, inBlock, unindented => do
    if ← isNext ends then empty else node fuel inBlock unindented

/-- The items of a block sequence; one that is not indented has no end of its own. -/
def blockItems : (fuel : Nat) → (unindented : Bool) → Reader (List Nat)
  | 0, _ => fail
  | fuel + 1, unindented => do
    if ← accept .blockEntry then
      let ends := if unindented then [.blockEntry, .key, .value, .blockEnd] else [.blockEntry, .blockEnd]
      let item ← nodeUnless fuel ends true false
      return item :: (← blockItems fuel unindented)
    else
      if !unindented then expect .blockEnd
      return []

/-- The entries of a block mapping, up to its end. -/
def blockEntries : (fuel : Nat) → Reader (List (Nat × Nat))
  | 0 => fail
  | fuel + 1 => do
    let ends : List Token := [.key, .value, .blockEnd]
    if ← accept .key then
      let key ← nodeUnless fuel ends true true
      let value ← if ← accept .value then nodeUnless fuel ends true true else empty
      return (key, value) :: (← blockEntries fuel)
    else
      expect .blockEnd
      return []

/-- The items of a flow sequence, up to its end. A key makes a mapping of one entry. -/
def flowItems : (fuel : Nat) → (first : Bool) → Reader (List Nat)
  | 0, _ => fail
  | fuel + 1, first => do
    if ← accept .flowSequenceEnd then return []
    if !first then expect .flowEntry
    if ← accept .flowSequenceEnd then return []
    let item ←
      if ← accept .key then mappingWith ⟨none, none⟩ do
        let key ← nodeUnless fuel [.value, .flowEntry, .flowSequenceEnd] false false
        let value ←
          if ← accept .value then nodeUnless fuel [.flowEntry, .flowSequenceEnd] false false
          else empty
        return [(key, value)]
      else node fuel false false
    return item :: (← flowItems fuel false)

/-- The entries of a flow mapping, up to its end. -/
def flowEntries : (fuel : Nat) → (first : Bool) → Reader (List (Nat × Nat))
  | 0, _ => fail
  | fuel + 1, first => do
    if ← accept .flowMappingEnd then return []
    if !first then expect .flowEntry
    if ← accept .flowMappingEnd then return []
    let entry ←
      if ← accept .key then do
        let key ← nodeUnless fuel [.value, .flowEntry, .flowMappingEnd] false false
        let value ←
          if ← accept .value then nodeUnless fuel [.flowEntry, .flowMappingEnd] false false
          else empty
        pure (key, value)
      else pure (← node fuel false false, ← empty)
    return entry :: (← flowEntries fuel false)

end

/-- The handles that need no directive. -/
def standardHandles : List (Text × Text) := [(['!'], ['!']), (['!', '!'], Tag.standard)]

/-- The directives of a document: there may be one version, of major number one, and one meaning for
each handle. -/
def directives : (fuel : Nat) → (versioned : Bool) → (handles : List (Text × Text)) →
    Reader (List (Text × Text))
  | 0, _, _ => fail
  | fuel + 1, versioned, handles => do
    match ← peek? with
    | some (.directive (.version major)) =>
      if versioned || major ≠ 1 then fail
      else advance; directives fuel true handles
    | some (.directive (.tag handle lead)) =>
      if (handles.lookup handle).isSome then fail
      else advance; directives fuel versioned ((handle, lead) :: handles)
    | some (.directive .other) => advance; directives fuel versioned handles
    | _ => return handles

/-- Passes over ends of documents. -/
def documentEnds : (fuel : Nat) → Reader Unit
  | 0 => return
  | fuel + 1 => do if ← accept .documentEnd then documentEnds fuel

/-- The node of the only document; nothing if there is no document. -/
def onlyDocument (fuel : Nat) : Reader (Option Nat) := do
  let explicit : Bool ← match ← peek? with
    | some (.directive _) | some .documentStart | none => pure true
    | _ => pure false
  if explicit then
    if (← peek?).isNone then return none
    let handles ← directives fuel false []
    expect .documentStart
    modify fun r => { r with handles := handles ++ r.handles }
  let root ← match ← peek? with
    | none => if explicit then empty else fail
    | some (.directive _) | some .documentStart | some .documentEnd =>
      if explicit then empty else fail
    | some _ => node fuel true false
  documentEnds fuel
  if (← peek?).isSome then fail
  return some root

end Node

/-- The only document of some tokens, which a fault may follow. -/
def Graph.ofTokens (ts : List Token) (fault : Option Fault) : Except Fault Graph := do
  let fuel := 3 * ts.length + 3
  let (root, r) ← (Node.onlyDocument fuel).run ⟨ts, fault, Node.standardHandles, [], #[], 0⟩
  return ⟨r.nodes, root⟩

end Narration.Yaml
