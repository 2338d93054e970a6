import Narration.Markup.Tag
import Narration.Player.Block
import Narration.Text.Substitute

/-!
# Taking narration out of a document

The source is searched as it stands, line ends untouched, and not read as a tree.

* `Player.importLine?`, `Player.stampText?` : the imports and stamps to delete;
* `Player.withoutUses` : a source without the tags of the player;
* `Player.remove` : a document without narration.
-/

namespace Narration.Player

/-- The length of the spaces and tabs at the front, with one line end after them. -/
def restOfLine (t : Text) : Nat :=
  let gap := (t.takeWhile Text.isSpaceOrTab).length
  match t.drop gap with
  | '\r' :: '\n' :: _ => gap + 2
  | '\n' :: _ => gap + 1
  | _ => gap

/-- What follows blanks and a word; the word may itself begin with blanks. -/
def afterBlanksAnd? (word t : Text) : Option Text :=
  (List.range (Text.indent t + 1)).reverse.findSome? fun n => Text.after? word (t.drop n)

/-- What follows one or more blanks. -/
def afterBlanks? (t : Text) : Option Text :=
  if t.head?.any Text.isBlank then some (Text.trimStart t) else none

def isQuoteMark (c : Char) : Bool := c == '\'' || c == '"'

/-- What follows a quoted text. -/
def afterQuoted? (t : Text) : Option Text := do
  let c ← t.head?
  let inside := t.tail.takeWhile (!isQuoteMark ·)
  if isQuoteMark c && !inside.isEmpty && inside.length < t.tail.length then
    some (t.tail.drop (inside.length + 1))
  else none

/-- The import of the component alone, at the front of a line: its length with the line end. -/
def importLine? (name t : Text) : Option Nat := do
  let rest ← Text.after? "import".toList (t.dropWhile Text.isSpaceOrTab)
  let rest ← Text.after? ['\x7b'] (← afterBlanks? rest)
  let rest ← afterBlanksAnd? name rest
  let rest ← Text.after? ['\x7d'] (Text.trimStart rest)
  let rest ← Text.after? "from".toList (← afterBlanks? rest)
  let rest ← afterQuoted? (← afterBlanks? rest)
  let rest := if rest.head? = some ';' then rest.tail else rest
  return t.length - (rest.length - restOfLine rest)

/-- The source without imports of the component. The first `skip` characters belong to one;
`lineStart` tells whether a line starts here. -/
def withoutImports (name : Text) : (skip : Nat) → (lineStart : Bool) → Text → Text
  | _, _, [] => []
  | skip + 1, _, c :: t => withoutImports name skip (c = '\n') t
  | 0, lineStart, c :: t =>
    match if lineStart then importLine? name (c :: t) else none with
    | some length => withoutImports name (length - 1) (c = '\n') t
    | none => c :: withoutImports name 0 (c = '\n') t

/-- A stamp at the front of a text, its fingerprint possibly empty, with the end of its line. -/
def stampText? : Text.Pattern
  | '\x7b' :: t => do
    let (_, rest) ← comment? t
    let rest ← Text.after? ['\x7d'] rest
    return (1 + t.length - (rest.length - restOfLine rest), [])
  | _ => none

/-- Whether a tag of the component opens at the front of a text. -/
def opensUse (name t : Text) : Bool :=
  (Text.after? ('<' :: name) t).any fun rest =>
    rest.head?.any fun c => Text.isBlank c || c == '/' || c == '>'

/-- The length up to the end of the first closing tag of the component. -/
def closingEnd? (name : Text) (length : Nat) : Text → Option Nat
  | [] => none
  | c :: t =>
    match (Text.after? (['<', '/'] ++ name) (c :: t)).bind fun rest =>
        Text.after? ['>'] (Text.trimStart rest) with
    | some rest => some (length + (t.length + 1 - rest.length))
    | none => closingEnd? name (length + 1) t

/-- The length of a use at the front of a text, with the rest of its line and, when a blank line or
nothing precedes it, a blank line after it. `before` is the text before, reversed. -/
def useLength? (name before t : Text) : Option Nat := do
  let tag ← Tag.read? 0 t
  let stop :=
    if tag.selfClosing then tag.stop
    else (closingEnd? name tag.stop (t.drop tag.stop)).getD tag.stop
  let stop := stop + restOfLine (t.drop stop)
  let rest := t.drop stop
  let newline : Text := if Text.beginsWith rest ['\r', '\n'] then ['\r', '\n'] else ['\n']
  let setOff := before.isEmpty || Text.beginsWith before (newline ++ newline).reverse
  return if setOff && Text.beginsWith rest newline then stop + newline.length else stop

/-- The source without uses of the component. The first `skip` characters belong to one; `before` is
the text before, reversed. -/
def withoutUses (name : Text) : (before : Text) → (skip : Nat) → Text → Text
  | _, _, [] => []
  | before, skip + 1, c :: t => withoutUses name (c :: before) skip t
  | before, 0, c :: t =>
    match if opensUse name (c :: t) then useLength? name before (c :: t) else none with
    | some length => withoutUses name (c :: before) (length - 1) t
    | none => c :: withoutUses name (c :: before) 0 t

/-- The document without the import of the component, all stamps and all uses. -/
def remove (document name : Text) : Text :=
  withoutUses name [] 0 (Text.substitute stampText? (withoutImports name 0 true document))

end Narration.Player
