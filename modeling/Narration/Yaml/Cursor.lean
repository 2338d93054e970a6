import Narration.Text.Blank

/-!
# Places in a YAML document

The line feed and the next-line control end a line and count as line feeds; the two separators of
Unicode end a line and count as themselves.

* `Yaml.isBreak`, `Yaml.endsWord`, `Yaml.endsLine` : the classes of characters that end something;
* `Yaml.Cursor` : the rest of a document and where it starts;
* `Cursor.next`, `Cursor.skip`, `Cursor.span` : moving on;
* `Cursor.lineBreak?` : reading a line break;
* `Cursor.atSeparator` : standing at a line that ends a document.
-/

namespace Narration.Yaml

/-- A character that ends a line. -/
def isBreak (c : Char) : Bool :=
  c == '\n' || c == '\x85' || c == '\u2028' || c == '\u2029'

/-- Whether a line ends here. -/
def endsLine : Option Char → Bool
  | none => true
  | some c => isBreak c

/-- Whether a word ends here. -/
def endsWord : Option Char → Bool
  | none => true
  | some c => Text.isSpaceOrTab c || isBreak c

/-- Whether a word ends here that no tab may follow. -/
def endsWordNoTab : Option Char → Bool
  | none => true
  | some c => c == ' ' || isBreak c

/-- The rest of a document, the offset and the line at which it starts, and its column. -/
structure Cursor where
  rest : Text
  index : Nat
  line : Nat
  column : Nat
  deriving Repr, Inhabited

namespace Cursor

/-- The start of a document, after a byte order mark. -/
def start (t : Text) : Cursor :=
  match t with
  | '\uFEFF' :: rest => ⟨rest, 1, 0, 0⟩
  | _ => ⟨t, 0, 0, 0⟩

/-- The character some places ahead. -/
def peek? (c : Cursor) (ahead : Nat) : Option Char := c.rest[ahead]?

/-- The next character. -/
def head? (c : Cursor) : Option Char := c.rest.head?

/-- One character further. A byte order mark takes no column. -/
def next (c : Cursor) : Cursor :=
  match c.rest with
  | [] => c
  | x :: rest =>
    if isBreak x then ⟨rest, c.index + 1, c.line + 1, 0⟩
    else ⟨rest, c.index + 1, c.line, if x = '\uFEFF' then c.column else c.column + 1⟩

/-- Some characters further. -/
def skip : (count : Nat) → Cursor → Cursor
  | 0, c => c
  | count + 1, c => skip count c.next

/-- The longest run of one class, and the place after it. -/
def span (p : Char → Bool) (c : Cursor) : Text × Cursor :=
  let run := c.rest.takeWhile p
  (run, c.skip run.length)

/-- The place after the longest run of one class. -/
def dropWhile (p : Char → Bool) (c : Cursor) : Cursor := (c.span p).2

/-- What a line break counts as, and the place after it. -/
def lineBreak? (c : Cursor) : Option (Char × Cursor) :=
  match c.rest with
  | x :: _ => if isBreak x then some (if x = '\x85' then '\n' else x, c.next) else none
  | [] => none

/-- Whether three hyphens or three points stand here as a word. -/
def atSeparator (c : Cursor) : Bool :=
  (Text.beginsWith c.rest ['-', '-', '-'] || Text.beginsWith c.rest ['.', '.', '.']) &&
    endsWord (c.peek? 3)

/-- The place at the end of the line, after blanks and perhaps a comment; nothing else may stand
there. -/
def lineEnd? (c : Cursor) : Option Cursor :=
  let c := c.dropWhile (· = ' ')
  let c := if c.head? = some '#' then c.dropWhile (!isBreak ·) else c
  if endsLine c.head? then some (match c.lineBreak? with
    | some (_, c) => c
    | none => c) else none

end Cursor
end Narration.Yaml
