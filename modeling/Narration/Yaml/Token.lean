import Narration.Text.Digit
import Narration.Text.Utf8
import Narration.Yaml.Scalar.Block
import Narration.Yaml.Scalar.Plain

/-!
# Tokens of YAML

* `Yaml.Token` : the tokens;
* `Token.name?` : the name of an anchor or alias;
* `Token.handle?`, `Token.uri?` : the parts of a tag;
* `Token.directive?` : a line of a document's head.
-/

namespace Narration.Yaml

/-- A line of a document's head. -/
inductive Directive where
  | version (major : Nat)
  | tag (handle lead : Text)
  | other
  deriving Repr, DecidableEq

/-- A token. Indentation counts as brackets: block collections have a start and an end. -/
inductive Token where
  | directive (d : Directive)
  | documentStart
  | documentEnd
  | blockSequenceStart
  | blockMappingStart
  | blockEnd
  | flowSequenceStart
  | flowSequenceEnd
  | flowMappingStart
  | flowMappingEnd
  | blockEntry
  | flowEntry
  | key
  | value
  | alias (name : Text)
  | anchor (name : Text)
  | tag (handle : Option Text) (suffix : Text)
  | scalar (text : Text) (plain : Bool)
  deriving Repr, DecidableEq

namespace Token

/-- A character of names. -/
def isName (c : Char) : Bool := c.isAlphanum || c == '-' || c == '_'

/-- Whether a name of an anchor may end here. -/
def endsName : Option Char → Bool
  | none => true
  | some c => endsWord (some c) || "?:,]\x7d%@`".toList.contains c

/-- The name of an anchor or alias, and the place after it. -/
def name? (c : Cursor) : Option (Text × Cursor) :=
  let (name, c) := c.span isName
  if !name.isEmpty && endsName c.head? then some (name, c) else none

/-- The handle of a tag: an exclamation mark, or a name between two. -/
def handle? (c : Cursor) : Option (Text × Cursor) :=
  if c.head? ≠ some '!' then none
  else if c.peek? 1 = some ' ' then some (['!'], c.next)
  else
    let (name, c) := c.next.span isName
    if c.head? = some '!' then some ('!' :: name ++ ['!'], c.next)
    else if name.isEmpty then some (['!'], c)
    else none

/-- A character of tags apart from the escapes. -/
def isUri (c : Char) : Bool := c.isAlphanum || "-;/?:@&=+$,_.!~*'()[]".toList.contains c

/-- The bytes of escapes in a row, and how many characters they take. -/
def escapes : Text → Option (List UInt8 × Nat)
  | '%' :: a :: b :: t => do
    let n ← Entity.number? 16 2 [a, b]
    let (bytes, length) ← escapes t
    return (UInt8.ofNat n :: bytes, length + 3)
  | '%' :: _ => none
  | _ => some ([], 0)

/-- The rest of a tag, with its escapes read; `fuel` bounds how many pieces it has. -/
def uriFrom : (fuel : Nat) → Cursor → Option (Text × Cursor)
  | 0, _ => none
  | fuel + 1, c =>
    if c.head? = some '%' then do
      let (bytes, length) ← escapes c.rest
      let t ← (Utf8.decode bytes).toOption
      let (more, c) ← uriFrom fuel (c.skip length)
      return (t ++ more, c)
    else
      let (run, c) := c.span isUri
      if run.isEmpty then some ([], c)
      else do
        let (more, c) ← uriFrom fuel c
        return (run ++ more, c)

/-- The name of a tag, which is not empty. -/
def uri? (c : Cursor) : Option (Text × Cursor) :=
  match uriFrom (c.rest.length + 1) c with
  | some (t, after) => if after.index = c.index then none else some (t, after)
  | none => none

/-- Whether an exclamation mark follows in the same word. -/
def hasMark (t : Text) : Bool :=
  ((t.takeWhile fun x => !endsWordNoTab (some x))).contains '!'

/-- A tag: its handle, unless it is given in full, and its name. -/
def tag? (c : Cursor) : Option (Token × Cursor) := do
  let (handle, suffix, c) ←
    if c.peek? 1 = some '<' then do
      let (suffix, c) ← uri? (c.skip 2)
      if c.head? = some '>' then some (none, suffix, c.next) else none
    else if endsWord (c.peek? 1) then some (none, ['!'], c.next)
    else do
      let (handle, c) ← if hasMark (c.rest.drop 1) then handle? c else some (['!'], c.next)
      let (suffix, c) ← uri? c
      some (some handle, suffix, c)
  if endsWordNoTab c.head? then some (.tag handle suffix, c) else none

/-- A whole number in decimal digits. -/
def number? (c : Cursor) : Option (Nat × Cursor) := do
  let (digits, c) := c.span Char.isDigit
  return (← Text.decimal? digits, c)

/-- The major number of a version. -/
def version? (c : Cursor) : Option (Directive × Cursor) := do
  let (major, c) ← number? (c.dropWhile (· = ' '))
  if c.head? ≠ some '.' then none
  let (_, c) ← number? c.next
  if endsWordNoTab c.head? then some (.version major, c) else none

/-- A handle and the beginning of tags that it stands for. -/
def shorthand? (c : Cursor) : Option (Directive × Cursor) := do
  let (handle, c) ← handle? (c.dropWhile (· = ' '))
  if c.head? ≠ some ' ' then none
  let (lead, c) ← uri? (c.dropWhile (· = ' '))
  if endsWordNoTab c.head? then some (.tag handle lead, c) else none

/-- A line of a document's head after its percent sign. -/
def directive? (c : Cursor) : Option (Token × Cursor) := do
  let (name, c) := c.span isName
  if name.isEmpty || !endsWordNoTab c.head? then none
  let (d, c) ←
    if name = "YAML".toList then version? c
    else if name = "TAG".toList then shorthand? c
    else some (.other, c.dropWhile (!isBreak ·))
  return (.directive d, ← c.lineEnd?)

end Token
end Narration.Yaml
