import Narration.Text.Basic

/-!
# Blanks

* `Text.isBlank` : the separators of Unicode and the controls that count as white space;
* `Text.trimStart`, `Text.trimEnd`, `Text.trim` : a text without the blanks at its ends;
* `Text.allBlank` : a text of blanks only;
* `Text.isSpaceOrTab` : the two blanks that indent.
-/

namespace Narration.Text

/-- A white-space character. -/
def isBlank (c : Char) : Bool :=
  let n := c.toNat
  (9 ≤ n && n ≤ 13) || (0x1C ≤ n && n ≤ 0x20) || n == 0x85 || n == 0xA0 || n == 0x1680 ||
    (0x2000 ≤ n && n ≤ 0x200A) || n == 0x2028 || n == 0x2029 || n == 0x202F || n == 0x205F ||
    n == 0x3000

/-- The two blanks that indent a line. -/
def isSpaceOrTab (c : Char) : Bool := c == ' ' || c == '\t'

def trimStart (t : Text) : Text := t.dropWhile isBlank

def trimEnd (t : Text) : Text := t.dropEndWhile isBlank

def trim (t : Text) : Text := t.trimStart.trimEnd

/-- Whether nothing but blanks is left. -/
def allBlank (t : Text) : Bool := t.all isBlank

/-- The number of blanks at the front. -/
def indent (t : Text) : Nat := (t.takeWhile isBlank).length

end Narration.Text
