import Narration.Text.Lines

/-!
# The tree of a document

* `Position` : the stretch of a text that a node covers, in lines and in offsets;
* `AttributeValue`, `Attribute` : what a tag carries;
* `Kind` : what a node is, with what belongs to that kind;
* `Node` : a kind, the children and the position;
* `Node.repeated` : a node that stands in several places;
* `Node.walk` : a node and all below it in reading order.
-/

namespace Narration

/-- A stretch of a text. Lines count from one, offsets from zero; `endLine` is the line of the last
character, `stop` the offset after it. `copies` tells how often the node with this position stands in
its content. -/
structure Position where
  startLine : Nat
  endLine : Nat
  start : Nat
  stop : Nat
  copies : Nat := 1
  deriving Repr, DecidableEq, Inhabited

/-- The value of an attribute: quoted text, or an expression in braces, given by its inner source. -/
inductive AttributeValue where
  | literal (text : Text)
  | expression (source : Text)
  deriving Repr, DecidableEq, Inhabited

/-- An attribute of a tag. The span covers the value with its quotes or braces; a spread is called
`...`. -/
structure Attribute where
  name : Text
  value : Option AttributeValue
  span : Option (Nat × Nat)
  deriving Repr, DecidableEq, Inhabited

/-- What a node is. -/
inductive Kind where
  | root
  | text (value : Text)
  | heading (depth : Nat)
  | paragraph
  | list (ordered : Bool)
  | listItem
  | table
  | tableRow
  | tableCell
  | codeBlock (info code : Text)
  | inlineCode (code : Text)
  | link (target : Text)
  | image (target : Text)
  | expression (source : Text)
  | component (name : Text) (attributes : List Attribute)
  | frontMatter (source : Text)
  | modules (source : Text)
  | raw (source : Text)
  | emphasis
  | strong
  | strike
  | lineBreak
  | quote
  deriving Repr, DecidableEq, Inhabited

/-- A node of the tree. -/
inductive Node where
  | mk (kind : Kind) (children : List Node) (position : Option Position)
  deriving Repr, Inhabited

namespace Node

def kind : Node → Kind
  | mk kind _ _ => kind

def children : Node → List Node
  | mk _ children _ => children

def position : Node → Option Position
  | mk _ _ position => position

/-- A node without children and without a position. -/
def leaf (kind : Kind) : Node := mk kind [] none

mutual

/-- The node as one that stands in its content `n` times as often. -/
def repeated (n : Nat) : Node → Node
  | mk kind children position =>
    mk kind (repeatedAll n children) (position.map fun p => { p with copies := n * p.copies })

/-- Several nodes as ones that stand in their content `n` times as often. -/
def repeatedAll (n : Nat) : List Node → List Node
  | [] => []
  | node :: nodes => repeated n node :: repeatedAll n nodes

end

mutual

/-- The node and all nodes below it, each before its children. -/
def walk : Node → List Node
  | mk kind children position => mk kind children position :: walkAll children

/-- The walks of several nodes in a row. -/
def walkAll : List Node → List Node
  | [] => []
  | node :: nodes => walk node ++ walkAll nodes

end

/-- The source of an expression. -/
def expression? (node : Node) : Option Text :=
  match node.kind with
  | .expression source => some source
  | _ => none

/-- The attributes of a component of the given name. -/
def component? (node : Node) (name : Text) : Option (List Attribute) :=
  match node.kind with
  | .component n attributes => if n = name then some attributes else none
  | _ => none

/-- Whether the node is a component of any name. -/
def isComponent (node : Node) : Bool :=
  match node.kind with
  | .component .. => true
  | _ => false

end Node
end Narration
