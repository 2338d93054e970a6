import Narration.Markup.Braces
import Narration.Markup.Node
import Narration.Text.Word

/-!
# Tags

A tag opens, closes or stands for a component. It is read from the front of a text; offsets count
from a given start.

* `Tag` : name, extent, form and attributes;
* `Tag.value?` : a quoted or braced attribute value;
* `Tag.tail?` : the attributes up to the end of the tag;
* `Tag.read?` : the tag at the front of a text.
-/

namespace Narration

/-- A tag, from its angle bracket at `start` to the offset `stop` after its last one. A fragment has
the empty name. -/
structure Tag where
  name : Text
  start : Nat
  stop : Nat
  closing : Bool
  selfClosing : Bool
  attributes : List Attribute
  deriving Repr, DecidableEq, Inhabited

namespace Tag

/-- The blanks that may stand inside a tag. -/
def isSpace (c : Char) : Bool := c == ' ' || c == '\t' || c == '\r' || c == '\n'

/-- A letter of ASCII, which a tag name starts with. -/
def isNameStart (c : Char) : Bool := c.isAlpha

def isNamePart (c : Char) : Bool := Text.isWord c || c == '.' || c == '-'

def isAttributeStart (c : Char) : Bool := c.isAlpha || c == '_' || c == '$'

def isAttributePart (c : Char) : Bool :=
  Text.isWord c || c == ':' || c == '.' || c == '$' || c == '-'

/-- The longest name at the front of a text, when there is one, and what follows it. -/
def name? (start part : Char → Bool) : Text → Option (Text × Text)
  | [] => none
  | c :: t => if start c then some (c :: t.takeWhile part, t.dropWhile part) else none

/-- The length of the longest run of tag blanks, and what follows it. -/
def spaces (t : Text) : Nat × Text := ((t.takeWhile isSpace).length, t.dropWhile isSpace)

/-- A braced expression at the front: its source and its length with the braces. -/
def braced? (t : Text) : Option (Text × Nat) := do
  let length ← Braces.balanced? t
  return ((t.take (length - 1)).drop 1, length)

/-- A quoted or braced value at the front, and its length. -/
def value? (t : Text) : Option (AttributeValue × Nat) :=
  match t with
  | '\x7b' :: _ => (braced? t).map fun (source, length) => (.expression source, length)
  | c :: rest =>
    if c = '"' ∨ c = '\'' then
      (Text.cut? c rest).map fun (text, _) => (.literal text, text.length + 2)
    else none
  | [] => none

/-- What stands between the name of a tag and its end. -/
structure Tail where
  attributes : List Attribute
  selfClosing : Bool
  stop : Nat
  deriving Repr, DecidableEq

/-- Puts an attribute before those of the rest. -/
def Tail.cons (a : Attribute) (tail : Tail) : Tail :=
  { tail with attributes := a :: tail.attributes }

/-- Reads one attribute at the front: the attribute, its length with the blanks that were passed
while looking for a value. -/
def attribute? (offset : Nat) (t : Text) : Option (Attribute × Nat) :=
  match t with
  | '\x7b' :: _ =>
    (braced? t).map fun (source, length) =>
      (⟨['.', '.', '.'], some (.expression source), some (offset, offset + length)⟩, length)
  | _ => do
    let (name, rest) ← name? isAttributeStart isAttributePart t
    let (gap, rest) := spaces rest
    match rest with
    | '=' :: rest =>
      let (space, rest) := spaces rest
      let (value, length) ← value? rest
      let first := name.length + gap + 1 + space
      return (⟨name, some value, some (offset + first, offset + first + length)⟩, first + length)
    | _ => return (⟨name, none, none⟩, name.length + gap)

/-- Reads attributes up to the end of the tag. A closing tag has none. `fuel` bounds their number. -/
def tail? (closing : Bool) : (fuel : Nat) → (offset : Nat) → Text → Option Tail
  | 0, _, _ => none
  | fuel + 1, offset, t =>
    let (space, t) := spaces t
    let offset := offset + space
    match t with
    | [] => none
    | '/' :: '>' :: _ => some ⟨[], true, offset + 2⟩
    | '>' :: _ => some ⟨[], false, offset + 1⟩
    | _ =>
      if closing then none
      else do
        let (a, length) ← attribute? offset t
        let tail ← tail? closing fuel (offset + length) (t.drop length)
        return tail.cons a

/-- Reads a tag after its opening bracket and slash. -/
def body? (start : Nat) (closing : Bool) (t : Text) : Option Tag :=
  let offset := start + (if closing then 2 else 1)
  match t with
  | '>' :: _ => some ⟨[], start, offset + 1, closing, false, []⟩
  | _ => do
    let (name, rest) ← name? isNameStart isNamePart t
    let c ← rest.head?
    if isSpace c || c == '/' || c == '>' then
      let tail ← tail? closing (rest.length + 1) (offset + name.length) rest
      return ⟨name, start, tail.stop, closing, tail.selfClosing, tail.attributes⟩
    else none

/-- The tag at the front of a text that begins at offset `start`. -/
def read? (start : Nat) : Text → Option Tag
  | '<' :: '/' :: t => body? start true t
  | '<' :: t => body? start false t
  | _ => none

end Tag
end Narration
