import Narration.Text.Case.Lower
import Narration.Text.Case.Upper
import Narration.Text.Case.Cased

/-!
# Small and capital letters

* `Text.lower` : the text in small letters, a capital sigma read by its place in the word;
* `Text.upper` : the text in capital letters, expansions included.
-/

namespace Narration.Text

/-- The small form of a character away from any context. -/
def lowerChar (c : Char) : Text :=
  if c.val < 128 then [c.toLower]
  else if c.toNat = 0x130 then ['i', Char.ofNat 0x307]
  else [(CaseRun.map? lowerRuns c.toNat).getD c]

/-- Whether a sigma between `before` (reversed) and `after` ends a word. -/
def endsWord (before after : Text) : Bool :=
  (before.dropWhile isCaseTransparent).head?.any isCased &&
    !(after.dropWhile isCaseTransparent).head?.any isCased

/-- The small form of a text that follows `before` (reversed). -/
def lowerAfter (before : Text) : Text → Text
  | [] => []
  | c :: t =>
    (if c.toNat = 0x3A3 then [if endsWord before t then Char.ofNat 0x3C2 else Char.ofNat 0x3C3]
     else lowerChar c) ++ lowerAfter (c :: before) t

def lower (t : Text) : Text := lowerAfter [] t

/-- The capital form of a character. -/
def upperChar (c : Char) : Text :=
  if c.val < 128 then [c.toUpper]
  else match upperExpansions.lookup c.toNat with
    | some codes => codes.map Char.ofNat
    | none => [(CaseRun.map? upperRuns c.toNat).getD c]

def upper (t : Text) : Text := t.flatMap upperChar

end Narration.Text
