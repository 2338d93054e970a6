import Narration.Diff.Matching
import Narration.Text.Lines

/-!
# Unified differences

Changes are shown with three lines around them; changes that are no further apart than six lines
share a hunk.

* `Diff.Change` : a stretch of both lists that is shared or exchanged;
* `Diff.changes` : all stretches;
* `Diff.hunks` : the stretches that are shown together;
* `Diff.unified` : the lines that show how a text changed.
-/

namespace Narration.Diff

/-- A stretch of the old lines and the stretch of new lines in its place. -/
structure Change where
  same : Bool
  oldFirst : Nat
  oldStop : Nat
  newFirst : Nat
  newStop : Nat
  deriving Repr, DecidableEq, Inhabited

/-- The stretches from the old line `i` and the new line `j` on, up to the ends of both lists. -/
def changesFrom (oldEnd newEnd i j : Nat) : List Block → List Change
  | [] => if i < oldEnd ∨ j < newEnd then [⟨false, i, oldEnd, j, newEnd⟩] else []
  | b :: rest =>
    (if i < b.old ∨ j < b.new then [⟨false, i, b.old, j, b.new⟩] else []) ++
      ⟨true, b.old, b.old + b.size, b.new, b.new + b.size⟩ ::
        changesFrom oldEnd newEnd (b.old + b.size) (b.new + b.size) rest

/-- All stretches of two lists. -/
def changes (old new : List Text) : List Change :=
  changesFrom old.length new.length 0 0 (blocks old new)

/-- How many lines are shown around a change. -/
def context : Nat := 3

/-- The last lines of a stretch. -/
def Change.lastLines (c : Change) : Change :=
  { c with
    oldFirst := max c.oldFirst (c.oldStop - context), newFirst := max c.newFirst (c.newStop - context) }

/-- The first lines of a stretch. -/
def Change.firstLines (c : Change) : Change :=
  { c with
    oldStop := min c.oldStop (c.oldFirst + context), newStop := min c.newStop (c.newFirst + context) }

/-- A shared stretch at the start keeps its last lines. -/
def trimFirst : List Change → List Change
  | c :: rest => (if c.same then c.lastLines else c) :: rest
  | [] => []

/-- A shared stretch at the end keeps its first lines. -/
def trimLast (cs : List Change) : List Change :=
  match cs.getLast? with
  | some c => if c.same then cs.dropLast ++ [c.firstLines] else cs
  | none => []

/-- Puts stretches into hunks; a long shared stretch ends one and starts the next. -/
def group (hunk : List Change) : List Change → List (List Change)
  | [] => [hunk]
  | c :: rest =>
    if c.same && 2 * context < c.oldStop - c.oldFirst then
      (hunk ++ [c.firstLines]) :: group [c.lastLines] rest
    else group (hunk ++ [c]) rest

/-- The stretches that are shown together. -/
def hunks (old new : List Text) : List (List Change) :=
  (group [] (trimLast (trimFirst (changes old new)))).filter (·.any (!·.same))

/-- A range of lines: its first line, counted from one, and its length unless that is one. An empty
range is given by the line before it. -/
def range (first stop : Nat) : Text :=
  if stop - first = 1 then Text.digits (first + 1)
  else Text.digits (if stop = first then first else first + 1) ++ ',' :: Text.digits (stop - first)

/-- The lines of a stretch, each with a mark. -/
def Change.lines (c : Change) (old new : List Text) : List Text :=
  let gone := (old.take c.oldStop).drop c.oldFirst
  let come := (new.take c.newStop).drop c.newFirst
  if c.same then gone.map (' ' :: ·) else gone.map ('-' :: ·) ++ come.map ('+' :: ·)

/-- The lines of a hunk under its ranges. -/
def hunkLines (old new : List Text) (hunk : List Change) : List Text :=
  match hunk.head?, hunk.getLast? with
  | some first, some last =>
    ("@@ -".toList ++ range first.oldFirst last.oldStop ++ ' ' :: '+' ::
      range first.newFirst last.newStop ++ " @@".toList) :: hunk.flatMap (·.lines old new)
  | _, _ => []

/-- The lines that show how a text changed, without the line feeds at their ends. -/
def unified (path before after : Text) : List Text :=
  let old := Text.linesWithEnds before
  let new := Text.linesWithEnds after
  let shown := hunks old new
  let header := if shown.isEmpty then [] else ["--- ".toList ++ path, "+++ ".toList ++ path]
  (header ++ shown.flatMap (hunkLines old new)).map (Text.dropEndWhile (· = '\n'))

end Narration.Diff
