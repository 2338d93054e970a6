import Narration.Text.Blank
import Narration.Text.Digit
import Narration.Text.Word

/-!
# The forms of a line

How a line begins a block. Unless said otherwise a line is given without the blanks at its ends.

* `LineForm.fence?`, `LineForm.closesFence` : code fences;
* `LineForm.heading?`, `LineForm.isUnderline` : headings, marked in front or underlined;
* `LineForm.isRule` : thematic breaks;
* `LineForm.marker?` : list markers;
* `LineForm.isTableRule` : the line under the head of a table;
* `LineForm.isDefinition` : link definitions;
* `LineForm.isModules` : imports and exports;
* `LineForm.opensTag` : lines that may start with a tag;
* `LineForm.interrupts` : lines that end a paragraph before them.
-/

namespace Narration.Markup.LineForm

/-- The fence at the front of a line: its mark and its length. -/
def fence? (t : Text) : Option (Char × Nat) := do
  let c ← t.head?
  let length := (t.takeWhile (· = c)).length
  if (c = '\x60' ∨ c = '~') ∧ 3 ≤ length then some (c, length) else none

/-- Whether a line is a fence of this mark, at least this long, and nothing more. -/
def closesFence (mark : Char) (length : Nat) (t : Text) : Bool :=
  length ≤ (t.takeWhile (· = mark)).length && Text.allBlank (t.dropWhile (· = mark))

/-- The content of a heading without the number signs that may close it. -/
def withoutClosing (content : Text) : Text :=
  let bare := Text.dropEndWhile (· = '#') content
  let short := Text.dropEndWhile Text.isSpaceOrTab bare
  if bare.length < content.length && short.length < bare.length && !short.isEmpty then short
  else content

/-- A heading: its depth, and the place and the length of its content. -/
def heading? (t : Text) : Option (Nat × Nat × Nat) :=
  let depth := (t.takeWhile (· = '#')).length
  let rest := t.drop depth
  if depth = 0 ∨ 6 < depth then none
  else if rest.isEmpty then some (depth, depth, 0)
  else
    let gap := (rest.takeWhile Text.isSpaceOrTab).length
    if gap = 0 then none
    else some (depth, depth + gap, (withoutClosing (rest.drop gap)).length)

/-- A line under a heading: equals signs or hyphens, with spaces and tabs after them. The answer is
the depth. -/
def underline? (t : Text) : Option Nat := do
  let c ← t.head?
  if (c = '=' ∨ c = '-') ∧ (t.dropWhile (· = c)).all Text.isSpaceOrTab then
    some (if c = '=' then 1 else 2)
  else none

/-- A thematic break: three or more of one mark, spaces and tabs between them. -/
def isRule (t : Text) : Bool :=
  match t.head? with
  | some c =>
    (c == '*' || c == '-' || c == '_') && 3 ≤ t.count c &&
      t.all fun x => x == c || Text.isSpaceOrTab x
  | none => false

/-- A list marker at the front of a text: the marker, and its length with the spaces and tabs after
it. -/
def marker? (t : Text) : Option (Text × Nat) := do
  let c ← t.head?
  let length ←
    if c = '*' ∨ c = '+' ∨ c = '-' then some 1
    else
      let digits := (t.takeWhile Text.isDigit).length
      let mark := (t.drop digits).head?
      if 1 ≤ digits ∧ digits ≤ 9 ∧ (mark = some '.' ∨ mark = some ')') then some (digits + 1)
      else none
  let rest := t.drop length
  let gap := (rest.takeWhile Text.isSpaceOrTab).length
  if gap = 0 ∧ ¬rest.isEmpty then none else some (t.take length, length + gap)

/-- Whether a marker numbers its item. -/
def isNumbered (marker : Text) : Bool := marker.head?.any Text.isDigit

/-- Hyphens with a colon at either end, spaces and tabs around. -/
def isTableRuleCell (t : Text) : Bool :=
  let t := Text.dropEndWhile Text.isSpaceOrTab (t.dropWhile Text.isSpaceOrTab)
  let t := if t.head? = some ':' then t.tail else t
  let t := if t.getLast? = some ':' then t.dropLast else t
  !t.isEmpty && t.all (· = '-')

/-- The line under the head of a table. -/
def isTableRule (t : Text) : Bool :=
  let cells := Text.splitOn '|' t
  let cells := if 1 < cells.length && cells.head?.any List.isEmpty then cells.tail else cells
  let cells :=
    if 1 < cells.length && cells.getLast?.any (·.all Text.isSpaceOrTab) then cells.dropLast
    else cells
  cells.all isTableRuleCell

/-- A link definition. -/
def isDefinition (t : Text) : Bool :=
  match t with
  | '[' :: rest =>
    let label := rest.takeWhile (· ≠ ']')
    match rest.drop label.length with
    | ']' :: ':' :: rest =>
      !label.isEmpty && (rest.dropWhile Text.isSpaceOrTab).head?.any (!Text.isBlank ·)
    | _ => false
  | _ => false

/-- The words that may follow `export`. -/
def exportWords : List Text :=
  ["default", "const", "let", "var", "function", "class", "async", "type", "interface"].map
    String.toList

/-- Whether the text goes on with something other than a word character. -/
def wordEnds (t : Text) : Bool := !t.head?.any Text.isWord

/-- An import or an export at the front of a whole line. -/
def isModules (t : Text) : Bool :=
  match Text.after? "import".toList t, Text.after? "export".toList t with
  | some rest, _ =>
    (Text.trimStart rest).head?.any fun c => Text.isWord c || "$*\x7b'\"".toList.contains c
  | none, some rest =>
    let bare := Text.trimStart rest
    (bare.length < rest.length &&
        exportWords.any fun word => (Text.after? word bare).any wordEnds) ||
      bare.head? = some '\x7b' || bare.head? = some '*'
  | none, none => false

/-- A line that may start with a tag. -/
def opensTag (t : Text) : Bool :=
  match t with
  | '<' :: '/' :: c :: _ => c.isAlpha || c == '>'
  | '<' :: c :: _ => c.isAlpha || c == '>'
  | _ => false

def isComment (t : Text) : Bool := Text.beginsWith t ['<', '!', '-', '-']

/-- Whether a line starts a new block without a blank line before it. A list item does when it has
content and its number, if any, is one. -/
def interrupts (t : Text) : Bool :=
  (fence? t).isSome || (heading? t).isSome || t.head? = some '>' || isComment t ||
    (isRule t && (underline? t).isNone) ||
    match marker? t with
    | some (marker, length) =>
      !Text.allBlank (t.drop length) && (!isNumbered marker || marker.dropLast = ['1'])
    | none => false

end Narration.Markup.LineForm
