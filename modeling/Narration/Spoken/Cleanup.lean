import Narration.Text.Blank
import Narration.Text.Substitute

/-!
# Cleaning up spoken text

Where components and links were left out, escapes, stray punctuation and gaps remain.

* `Spoken.escape?`, `Spoken.strayMark?`, `Spoken.commas?`, `Spoken.colonCommas?`,
  `Spoken.colonStop?`, `Spoken.wideGap?` : the patterns that are replaced;
* `Spoken.cleanUp` : all of them, one after another, and no blanks at the ends.
-/

namespace Narration.Spoken

/-- A backslash before a mark of markup: the mark stays. -/
def escape? : Text.Pattern
  | '\\' :: c :: _ =>
    if "*_\x60~[]()\x7b\x7d#+-.!|".toList.contains c then some (2, [c]) else none
  | _ => none

/-- What follows the blanks at the front of a text, and their number. -/
def afterBlanks (t : Text) : Nat × Text := (Text.indent t, Text.trimStart t)

/-- A colon or comma, and a comma after it: one comma stays. -/
def strayMark? : Text.Pattern
  | c :: t =>
    if c = ':' ∨ c = ',' then
      match afterBlanks t with
      | (gap, ',' :: _) => some (gap + 2, [','])
      | _ => none
    else none
  | [] => none

/-- The length up to the last of the commas at the front of a text, blanks between them; `length` is
what was passed, `last` ends at a comma. -/
def commaRun (length last : Nat) : Text → Nat
  | [] => last
  | c :: t =>
    if c = ',' then commaRun (length + 1) (length + 1) t
    else if Text.isBlank c then commaRun (length + 1) last t
    else last

/-- Two or more commas: one stays. -/
def commas? : Text.Pattern
  | ',' :: t =>
    let length := commaRun 0 0 t
    if length = 0 then none else some (length + 1, [','])
  | _ => none

/-- A colon with commas after it: a colon and a space stay. -/
def colonCommas? : Text.Pattern
  | ':' :: t =>
    let (gap, t) := afterBlanks t
    let commas := (t.takeWhile (· = ',')).length
    if commas = 0 then none
    else some (1 + gap + commas + Text.indent (t.drop commas), [':', ' '])
  | _ => none

/-- A colon with a full stop after it: the stop stays. -/
def colonStop? : Text.Pattern
  | ':' :: t =>
    match afterBlanks t with
    | (gap, '.' :: _) => some (gap + 2, ['.'])
    | _ => none
  | _ => none

/-- Three or more line feeds: two stay. -/
def wideGap? : Text.Pattern := fun t =>
  let length := (t.takeWhile (· = '\n')).length
  if length < 3 then none else some (length, ['\n', '\n'])

/-- The text as it is narrated. -/
def cleanUp (t : Text) : Text :=
  Text.trim ([escape?, strayMark?, commas?, colonCommas?, colonStop?, wideGap?].foldl
    (fun t p => Text.substitute p t) t)

end Narration.Spoken
