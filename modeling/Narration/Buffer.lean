import Narration.Text.Blank
import Narration.Text.Lines

/-!
# Document buffers

* `Buffer` : a document as lines without their ends, and the line end it is written with;
* `Buffer.ofText`, `Buffer.text`, `Buffer.render` : reading, the text that positions address, and
  writing;
* `Buffer.splice`, `Buffer.replaceSpan`, `Buffer.dropLines?` : the edits.
-/

namespace Narration

/-- A document as lines without their ends. -/
structure Buffer where
  newline : Text
  lines : List Text
  deriving Repr, DecidableEq, Inhabited

namespace Buffer

/-- The lines of a text. One carriage return with line feed makes it the line end of all lines. -/
def ofText (t : Text) : Buffer :=
  ⟨if Text.has t ['\r', '\n'] then ['\r', '\n'] else ['\n'], Text.lines (Text.crlfToLf t)⟩

/-- The lines with line feeds between them. -/
def text (b : Buffer) : Text := Text.unlines b.lines

/-- The lines with the document's own line end between them. -/
def render (b : Buffer) : Text := Text.join b.newline b.lines

/-- Exchanges `count` lines from `index` on for others; beyond the end there are none. -/
def splice (b : Buffer) (index count : Nat) (new : List Text) : Buffer :=
  { b with lines := b.lines.take index ++ new ++ b.lines.drop (index + count) }

/-- Exchanges the characters of the text from `start` up to `stop` for others. -/
def replaceSpan (b : Buffer) (start stop : Nat) (new : Text) : Buffer :=
  let t := b.text
  { b with lines := Text.lines (t.take start ++ new ++ t.drop stop) }

/-- Whether a line is there and blank. -/
def lineBlank (b : Buffer) (index : Nat) : Bool := b.lines[index]?.any Text.allBlank

/-- Deletes the lines from `first` to `last`. When no text precedes them directly, a blank line after
them goes too. There must be a line before `first`, unless it is zero. -/
def dropLines? (b : Buffer) (first last : Nat) : Option Buffer :=
  if 0 < first ∧ b.lines.length < first then none
  else
    let last :=
      if (first = 0 || b.lineBlank (first - 1)) && b.lineBlank (last + 1) then last + 1 else last
    some (b.splice first (last + 1 - first) [])

end Buffer
end Narration
