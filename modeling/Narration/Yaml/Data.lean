import Narration.Text.Lines
import Narration.Yaml.Node

/-!
# Data of YAML

Nodes become values one by one: what a collection holds is looked at only after all that came before
it, level by level, except in a key, which is made at once. So of several faults the first in this
order counts.

* `Shape` : a value whose parts are named by number;
* `Building` : a step of making values;
* `Building.text` : the text of what is tagged as a scalar;
* `Building.flatten` : gives a mapping the entries that it takes over from others;
* `Building.make`, `Building.fill` : makes the value of a node, and of its parts;
* `Data` : the values of a document;
* `Data.value` : a value with all its parts;
* `Yaml.read` : the values of a text.
-/

namespace Narration.Yaml

/-- The value of a letter of base 64. -/
def sixBits? (c : Char) : Option Nat :=
  if 'A' ≤ c ∧ c ≤ 'Z' then some (c.toNat - 0x41)
  else if 'a' ≤ c ∧ c ≤ 'z' then some (c.toNat - 0x61 + 26)
  else if '0' ≤ c ∧ c ≤ '9' then some (c.toNat - 0x30 + 52)
  else if c = '+' then some 62 else if c = '/' then some 63 else none

/-- The bytes of base 64, of which `held` are the bits of the last `count` letters of a group of
four that no byte was made of, and `pads` equals signs were read in a row. Other characters are
passed over; what follows a filled group is not read. -/
def bytesFrom (count held pads : Nat) : Text → Option (List UInt8)
  | [] => if count = 0 then some [] else none
  | c :: t =>
    if c = '=' then
      if 2 ≤ count ∧ 4 ≤ count + pads + 1 then some []
      else bytesFrom count held (if 2 ≤ count then pads + 1 else pads) t
    else
      match sixBits? c with
      | none => bytesFrom count held pads t
      | some v =>
        match count with
        | 0 => bytesFrom 1 v 0 t
        | 1 => (bytesFrom 2 (v % 16) 0 t).map (UInt8.ofNat (held * 4 + v / 16) :: ·)
        | 2 => (bytesFrom 3 (v % 4) 0 t).map (UInt8.ofNat (held * 16 + v / 4) :: ·)
        | _ => (bytesFrom 0 0 0 t).map (UInt8.ofNat (held * 64 + v) :: ·)

/-- The bytes that a text of ASCII writes in base 64. -/
def bytes? (t : Text) : Option (List UInt8) :=
  if t.all (·.toNat < 0x80) then bytesFrom 0 0 0 t else none

/-- A value; its parts are named by the numbers of their nodes. -/
inductive Shape where
  | plain (v : Value)
  | list (items : List Nat)
  | pairs (entries : List (Nat × Nat))
  | mapping (entries : List (Nat × Nat))
  | collection (members : List Nat)
  deriving Repr, Inhabited

/-- What has been made: the nodes, which merging changes; the values by number; the nodes that are
being made; and the collections to fill, in order. -/
structure Building.State where
  nodes : Array Node
  shapes : Array (Option Shape)
  begun : List Nat
  pending : List Nat

/-- A step of making values. -/
abbrev Building (α : Type) := StateT Building.State (Except Fault) α

namespace Building

def fail {α : Type} : Building α := throw .malformed

/-- The node of a number. -/
def node (i : Nat) : Building Node := do
  match (← get).nodes[i]? with
  | some n => return n
  | none => fail

/-- Puts a node in the place of another. -/
def replace (i : Nat) (n : Node) : Building Unit :=
  modify fun s => { s with nodes := s.nodes.setIfInBounds i n }

/-- The value of a number, if it is made. -/
def shape? (i : Nat) : Building (Option Shape) := return (← get).shapes[i]?.join

/-- Sets the value of a number. -/
def setShape (i : Nat) (v : Shape) : Building Unit :=
  modify fun s => { s with shapes := s.shapes.setIfInBounds i (some v) }

/-! ## Scalars -/

/-- The text of a scalar; a mapping has the text of its default entry. `fuel` bounds how deep that
is. -/
def text : (fuel : Nat) → Nat → Building Text
  | 0, _ => fail
  | fuel + 1, i => do
    match ← node i with
    | .scalar _ t => return t
    | .sequence .. => fail
    | .mapping _ entries =>
      match ← entries.findM? fun entry => return (← node entry.1).tag = .value with
      | some (_, v) => text fuel v
      | none => fail

/-- The value of a text with the tag of a scalar. -/
def scalar (tag : Tag) (t : Text) : Except Fault Value :=
  match tag with
  | .null => .ok .null
  | .truthValue =>
    match Tag.truthValues.find? (·.1.toList = Text.lower t) with
    | some (_, b) => .ok (.bool b)
    | none => .error (.badTruthValue (Text.lower t))
  | .integer => (Numeral.integer t).map .int
  | .decimal => (Numeral.decimal t).map .float
  | .binary => match bytes? t with
    | some bs => .ok (.bytes bs)
    | none => .error .malformed
  | .timestamp => match Timestamp.read? t with
    | some s => s.value
    | none => .error .noTimestamp
  | .text => .ok (.str t)
  | _ => .error .malformed

/-! ## Mappings -/

/-- The entries of mappings that a node names, after they have taken over what they merge: those of
one mapping, or of a sequence of mappings, the first of them coming last. -/
def mergedFrom (flattened : Nat → Building (List (Nat × Nat))) (i : Nat) :
    Building (List (Nat × Nat)) := do
  match ← node i with
  | .scalar .. => fail
  | .mapping .. => flattened i
  | .sequence _ items =>
    let entries ← items.mapM fun item => do
      match ← node item with
      | .mapping .. => flattened item
      | _ => fail
    return entries.reverse.flatten

/-- The entries that a mapping merges; `kept` are its own, reversed, and stay in it. An equals sign as
a key is a text. -/
def mergedEntries (flattened : Nat → Building (List (Nat × Nat))) (i : Nat) (tag : Tag) :
    (kept : List (Nat × Nat)) → List (Nat × Nat) → Building (List (Nat × Nat))
  | kept, [] => do
    replace i (.mapping tag kept.reverse)
    return []
  | kept, (k, v) :: rest => do
    match ← node k with
    | .scalar .value t =>
      replace k (.scalar .text t)
      mergedEntries flattened i tag ((k, v) :: kept) rest
    | key =>
      if key.tag = .merge then
        replace i (.mapping tag (kept.reverse ++ rest))
        let merged ← mergedFrom flattened v
        return merged ++ (← mergedEntries flattened i tag kept rest)
      else mergedEntries flattened i tag ((k, v) :: kept) rest

/-- The entries of a mapping, those that it merges coming first; it keeps them. `fuel` bounds how many
mappings merge each other in a row. -/
def flatten : (fuel : Nat) → Nat → Building (List (Nat × Nat))
  | 0, _ => fail
  | fuel + 1, i => do
    match ← node i with
    | .mapping tag entries =>
      let merged ← mergedEntries (flatten fuel) i tag [] entries
      match ← node i with
      | .mapping tag own =>
        replace i (.mapping tag (merged ++ own))
        return merged ++ own
      | _ => fail
    | _ => fail

/-- The value of a key, which a collection cannot be. -/
def key (i : Nat) : Building Value := do
  match ← shape? i with
  | some (.plain v) => return v
  | _ => fail

/-- Enters an entry; a key that comes again keeps its place and takes the later value. -/
def enter (entries : List (Nat × Nat)) (k v : Nat) : Building (List (Nat × Nat)) := do
  let new ← key k
  let isSame (other : Nat) : Building Bool := return other = k || (← key other).same new
  if ← entries.anyM (isSame ·.1) then
    entries.mapM fun entry => return if ← isSame entry.1 then (entry.1, v) else entry
  else return entries ++ [(k, v)]

/-! ## Values -/

/-- The value of a node before its parts are known; nothing for what is no collection. -/
def emptyShape? : Tag → Option Shape
  | .sequence => some (.list [])
  | .mapping => some (.mapping [])
  | .set => some (.collection [])
  | .orderedMapping | .pairs => some (.pairs [])
  | _ => none

/-- Enters the parts of a mapping one by one; keys are made at once. -/
def fillEntries (make : (atOnce : Bool) → Nat → Building Unit) (atOnce : Bool) :
    (entered entries : List (Nat × Nat)) → Building (List (Nat × Nat))
  | entered, [] => return entered
  | entered, (k, v) :: rest => do
    make true k
    let _ ← key k
    make atOnce v
    fillEntries make atOnce (← enter entered k v) rest

/-- The pair that a mapping of one entry is. -/
def pair (make : Nat → Building Unit) (i : Nat) : Building (Nat × Nat) := do
  match ← node i with
  | .mapping _ [(k, v)] =>
    make k
    make v
    return (k, v)
  | _ => fail

/-- The parts of a collection. -/
def parts (make : (atOnce : Bool) → Nat → Building Unit) (fuel : Nat) (atOnce : Bool) (i : Nat) :
    Building Shape := do
  match ← node i with
  | .scalar .. => fail
  | .sequence .sequence items =>
    items.forM (make atOnce)
    return .list items
  | .mapping .mapping _ => return .mapping (← fillEntries make atOnce [] (← flatten fuel i))
  | .mapping .set _ =>
    return .collection ((← fillEntries make atOnce [] (← flatten fuel i)).map (·.1))
  | .sequence .orderedMapping items => return .pairs (← items.mapM (pair (make atOnce)))
  | .sequence .pairs items => return .pairs (← items.mapM (pair (make atOnce)))
  | _ => fail

/-- Makes the value of a node, unless it is made. A collection is filled at once or entered among those
to be filled; at once, it cannot hold itself. `fuel` bounds how deep values are made at once. -/
def make (mergeFuel : Nat) : (fuel : Nat) → (atOnce : Bool) → Nat → Building Unit
  | 0, _, _ => fail
  | fuel + 1, atOnce, i => do
    if (← shape? i).isSome then return
    if (← get).begun.contains i then fail
    modify fun s => { s with begun := i :: s.begun }
    let tag := (← node i).tag
    match emptyShape? tag with
    | none => setShape i (.plain (← scalar tag (← text (fuel + 1) i)))
    | some empty =>
      if atOnce then setShape i (← parts (make mergeFuel fuel) mergeFuel true i)
      else
        setShape i empty
        modify fun s => { s with pending := s.pending ++ [i] }
    modify fun s => { s with begun := s.begun.erase i }

/-- Fills collections until none is left; `fuel` bounds how many there are. -/
def fillAll (mergeFuel depth : Nat) : (fuel : Nat) → Building Unit
  | 0 => return
  | fuel + 1 => do
    match (← get).pending with
    | [] => return
    | i :: rest =>
      modify fun s => { s with pending := rest }
      setShape i (← parts (make mergeFuel depth) mergeFuel false i)
      fillAll mergeFuel depth fuel

end Building

/-- The values of a document by number; an empty stream has no root. -/
structure Data where
  shapes : Array (Option Shape)
  root : Option Nat
  deriving Repr, Inhabited

namespace Data

/-- The values of the nodes of a document. -/
def ofGraph (g : Graph) : Except Fault Data := do
  match g.root with
  | none => return ⟨#[], none⟩
  | some root =>
    let count := g.nodes.size
    let mergeFuel := count + 1
    let step : Building Unit := do
      Building.make mergeFuel (count + 1) false root
      Building.fillAll mergeFuel (count + 1) (count + 1)
    let (_, s) ← step.run ⟨g.nodes, Array.replicate count none, [], []⟩
    return ⟨s.shapes, some root⟩

/-- A value with all its parts, `around` being the numbers of those that it is in; one of these is a
cycle. `fuel` bounds the depth. -/
def valueFrom (d : Data) : (fuel : Nat) → (around : List Nat) → Nat → Value
  | 0, _, _ => .null
  | fuel + 1, around, i =>
    let inner := d.valueFrom fuel (i :: around)
    match d.shapes[i]?.join with
    | none => .null
    | some (.plain v) => v
    | some (.list items) => if around.contains i then .cycle false else .list (items.map inner)
    | some (.pairs entries) =>
      if around.contains i then .cycle false
      else .list (entries.map fun (k, v) => .pair (inner k) (inner v))
    | some (.mapping entries) =>
      if around.contains i then .cycle true
      else .mapping (entries.map fun (k, v) => (inner k, inner v))
    | some (.collection members) => .collection (members.map inner)

/-- The value of a number, seen from itself. -/
def value (d : Data) (i : Nat) : Value := d.valueFrom (d.shapes.size + 1) [] i

/-- The entries of a mapping: the key, and the number of the value. -/
def entries? (d : Data) (i : Nat) : Option (List (Value × Nat)) :=
  match d.shapes[i]?.join with
  | some (.mapping entries) => some (entries.map fun (k, v) => (d.value k, v))
  | _ => none

end Data

/-- The number of the value of a textual key. -/
def entry? (entries : List (Value × Nat)) (key : Text) : Option Nat :=
  (entries.find? (·.1.same (.str key))).map (·.2)

/-- The values of a text that holds one document at most. -/
def read (t : Text) : Except Fault Data := do
  let (tokens, fault) ← Token.ofText (Text.anyNewlineToLf t)
  Data.ofGraph (← Graph.ofTokens tokens fault)

end Narration.Yaml
