import Narration.Markup.Tree
import Narration.Text.Substitute
import Narration.Voice.Payload

/-!
# The narration block of a document

A narration block is a stamp with the fingerprint of the narrated text, followed by the tag of
the player, whose component a module statement imports.

* `Player.stamp`, `Player.tag`, `Player.importStatement` : how the parts are written;
* `Player.digest?` : the fingerprint in the source of a stamp;
* `Player.imports` : whether module statements import a component;
* `Player.uses` : the places of a component in a tree;
* `Player.stampBefore?` : the stamp that belongs to a component;
* `Player.locate?` : the narration that a document records;
* `Player.placementIn` : where the component stands.
-/

namespace Narration.Player

/-- The name of the player's component unless another is chosen. -/
def defaultName : Text := "AudioTranscript".toList

/-- Where the player's component is imported from unless another place is chosen. -/
def defaultPath : Text := "/snippets/audio-transcript.jsx".toList

/-- The label of a fingerprint. -/
def label : Text := "speak-mintlify-hash".toList

/-- The attribute with the voices. -/
def voicesAttribute : Text := "voices".toList

/-- The stamp with a fingerprint. -/
def stamp (digest : Text) : Text :=
  ['\x7b', '/', '*', ' '] ++ label ++ [':', ' '] ++ digest ++ [' ', '*', '/', '\x7d']

/-- The tag of the player. -/
def tag (voices : List Voice) (name : Text) : Text :=
  '<' :: name ++ ' ' :: voicesAttribute ++ ['=', '\x7b'] ++ Voice.payload voices ++
    ['\x7d', ' ', '/', '>']

/-- The statement that imports the component. -/
def importStatement (name path : Text) : Text :=
  "import \x7b ".toList ++ name ++ " \x7d from '".toList ++ path ++ ['\'', ';']

/-! ## Stamps -/

/-- A digit of a fingerprint. -/
def isDigestChar (c : Char) : Bool := ('a' ≤ c && c ≤ 'f') || ('0' ≤ c && c ≤ '9')

/-- A comment with a fingerprint at the front of a text: the fingerprint, possibly empty, and what
follows the comment. -/
def comment? (t : Text) : Option (Text × Text) := do
  let t ← Text.after? ['/', '*'] t
  let t ← Text.after? (label ++ [':']) (Text.trimStart t)
  let t := Text.trimStart t
  let digest := t.takeWhile isDigestChar
  let rest ← Text.after? ['*', '/'] (Text.trimStart (t.drop digest.length))
  return (digest, rest)

/-- The first fingerprint in the source of an expression. -/
def digest? : Text → Option Text
  | [] => none
  | c :: t =>
    match comment? (c :: t) with
    | some (d :: digest, _) => some (d :: digest)
    | _ => digest? t

/-- Whether a node is a stamp. -/
def isStamp (node : Node) : Bool := node.expression?.any fun source => (digest? source).isSome

/-! ## Imports -/

/-- Whether a word begins or ends between two characters. -/
def wordBoundary (before after : Option Char) : Bool :=
  before.any Text.isWord != after.any Text.isWord

/-- Whether a name stands here as a word, and what follows it. -/
def nameAt? (name : Text) (before : Option Char) (t : Text) : Option Text := do
  let rest ← Text.after? name t
  if wordBoundary before t.head? && wordBoundary name.getLast? rest.head? then some rest else none

/-- Whether a name stands among those in braces, `before` being the character before the text. -/
def bracesHold (name : Text) (before : Char) : Text → Bool
  | [] => false
  | c :: t =>
    (nameAt? name (some before) (c :: t)).any (·.contains '\x7d') ||
      (c ≠ '\x7d' && bracesHold name c t)

/-- Whether what follows `import` and blanks brings in a name, alone or in braces. -/
def clauseImports (name : Text) (t : Text) : Bool :=
  (Text.after? name t).any (fun rest => wordBoundary name.getLast? rest.head?) ||
    let t := Text.trimStart (t.dropWhile fun c => Text.isWord c || c == '$')
    let t := Text.trimStart (if t.head? = some ',' then t.tail else t)
    match t with
    | '\x7b' :: inside => bracesHold name '\x7b' inside
    | _ => false

/-- Whether module statements import a name, `before` being the character before the text. -/
def importsAfter (name : Text) (before : Option Char) : Text → Bool
  | [] => false
  | c :: t =>
    (!before.any Text.isWord && (Text.after? "import".toList (c :: t)).any fun rest =>
        rest.head?.any Text.isBlank && clauseImports name (Text.trimStart rest)) ||
      importsAfter name (some c) t

/-- Whether module statements import a name. -/
def imports (source name : Text) : Bool := importsAfter name none source

/-! ## Places of the component -/

/-- A component in a tree: the node with its attributes, and the nodes around it, the innermost
first. -/
structure Use where
  node : Node
  attributes : List Attribute
  around : List Node

mutual

/-- The uses of a component in a node, from front to back; one inside another does not count. -/
def usesIn (name : Text) (around : List Node) : Node → List Use
  | .mk kind children position =>
    let node := Node.mk kind children position
    match node.component? name with
    | some attributes => [⟨node, attributes, around⟩]
    | none => usesInAll name (node :: around) children

def usesInAll (name : Text) (around : List Node) : List Node → List Use
  | [] => []
  | node :: nodes => usesIn name around node ++ usesInAll name around nodes

end

/-- The uses of a component in a tree. -/
def uses (tree : Node) (name : Text) : List Use := usesIn name [] tree

/-- The attribute of a use that carries the voices. -/
def Use.voices? (u : Use) : Option Attribute := u.attributes.find? (·.name = voicesAttribute)

/-- Whether a node may stand between a stamp and its component. -/
def isGap (node : Node) : Bool :=
  match node.kind with
  | .lineBreak => true
  | .text value => Text.allBlank value
  | _ => false

/-- The stamp directly before a use, among its siblings. -/
def Use.stamp? (u : Use) : Option Node := do
  let siblings := (← u.around.head?).children
  let before := siblings.takeWhile fun n =>
    !(n.position = u.node.position && n.kind = u.node.kind)
  let candidate ← (before.reverse.dropWhile fun n => !isStamp n && isGap n).head?
  if isStamp candidate then some candidate else none

/-- Where the player's component stands in a document. -/
inductive Placement where
  | absent
  | wellPlaced
  | misplaced
  deriving Repr, DecidableEq, Inhabited

/-- The component is misplaced when another component stands around one of its uses. -/
def placementIn (tree : Node) (name : Text) : Placement :=
  let found := uses tree name
  if found.isEmpty then .absent
  else if found.any (·.around.any Node.isComponent) then .misplaced
  else .wellPlaced

/-- The placement in a document. -/
def placement (document name : Text) : Report Placement := return placementIn (← Tree.parse document) name

/-- The fingerprint of the first stamp of a tree. -/
def fingerprint? (tree : Node) : Option Text :=
  tree.walk.findSome? fun node => node.expression?.bind digest?

/-- The narration that a document records; without voices there is none. -/
def locate? (document name : Text) : Report (Option NarrationBlock) := do
  let tree ← Tree.parse document
  let voices ← match (uses tree name).findSome? Use.voices? with
    | some carrier => Voice.ofPayload carrier.value
    | none => pure []
  return if voices.isEmpty then none else some ⟨fingerprint? tree, voices⟩

end Narration.Player
