import Narration.Text.Basic

/-!
# Lines

* `Text.lines`, `Text.unlines` : cutting at line feeds and joining with them;
* `Text.crlfToLf` : carriage return with line feed read as line feed;
* `Text.anyNewlineToLf` : every kind of line ending read as line feed;
* `Text.linesWithEnds` : the lines of a text, each with its own line boundary.
-/

namespace Narration.Text

/-- The pieces between line feeds. -/
def lines (t : Text) : List Text := t.splitOn '\n'

/-- The lines with a line feed between them. -/
def unlines (ls : List Text) : Text := join ['\n'] ls

/-- Carriage return with line feed becomes line feed; a lone carriage return stays. -/
def crlfToLf : Text → Text
  | [] => []
  | '\r' :: '\n' :: t => '\n' :: crlfToLf t
  | c :: t => c :: crlfToLf t

/-- Carriage return, with or without line feed, becomes line feed. -/
def anyNewlineToLf : Text → Text
  | [] => []
  | '\r' :: '\n' :: t => '\n' :: anyNewlineToLf t
  | c :: t => (if c = '\r' then '\n' else c) :: anyNewlineToLf t

/-- The characters at which text is cut into lines: the line controls, the information separators
and the two separators of Unicode. -/
def isLineBoundary (c : Char) : Bool :=
  let n := c.toNat
  (10 ≤ n && n ≤ 13) || (0x1C ≤ n && n ≤ 0x1E) || n == 0x85 || n == 0x2028 || n == 0x2029

/-- The lines of a text with their boundaries, carriage return and line feed counting as one;
`line` holds the current line, reversed. -/
def linesWithEndsFrom (line : Text) : Text → List Text
  | [] => if line.isEmpty then [] else [line.reverse]
  | '\r' :: '\n' :: t => ('\n' :: '\r' :: line).reverse :: linesWithEndsFrom [] t
  | c :: t =>
    if isLineBoundary c then (c :: line).reverse :: linesWithEndsFrom [] t
    else linesWithEndsFrom (c :: line) t

/-- The lines of a text, each with the boundary that ends it. -/
def linesWithEnds (t : Text) : List Text := linesWithEndsFrom [] t

end Narration.Text
