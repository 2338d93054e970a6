import Narration.Yaml.Scalar.Quoted

/-!
# Plain scalars

A plain scalar is words with folded line breaks between them; it ends at a comment, at a colon that
ends a word, at an indentation less than its own, and in a flow collection at the marks of the
collection.

* `Scalar.plainRun` : the characters up to the next blank or the end;
* `Scalar.plainGap` : blanks and line breaks between words;
* `Scalar.plain` : a whole scalar.
-/

namespace Narration.Yaml.Scalar

/-- Whether a plain scalar ends at a character, the one after it being given. -/
def endsPlain (inFlow : Bool) (c : Char) (next : Option Char) : Bool :=
  endsWord (some c) ||
    (c == ':' && (endsWord next || (inFlow && next.any (",[]\x7b\x7d".toList.contains ·)))) ||
    (inFlow && ",?[]\x7b\x7d".toList.contains c)

/-- The characters before the next one that ends a plain scalar. -/
def plainRun (inFlow : Bool) : Text → Text
  | [] => []
  | c :: t => if endsPlain inFlow c t.head? then [] else c :: plainRun inFlow t

/-- The breaks of the blank lines that follow, and the place after them; nothing if a separator of
documents follows one. -/
def plainEmptyLines : (fuel : Nat) → Cursor → Option Text × Cursor
  | 0, c => (none, c)
  | fuel + 1, c =>
    if c.head? = some ' ' then plainEmptyLines fuel c.next
    else
      match c.lineBreak? with
      | none => (some [], c)
      | some (x, c) =>
        if c.atSeparator then (none, c)
        else
          let (breaks, c) := plainEmptyLines fuel c
          (breaks.map (x :: ·), c)

/-- What stands between two words: the text it is folded to, empty if no word can follow; the place
after it; and whether it crossed a line. -/
def plainGap (c : Cursor) : Text × Cursor × Bool :=
  let (blanks, c) := c.span (· = ' ')
  match c.lineBreak? with
  | none => (blanks, c, false)
  | some (x, c) =>
    if c.atSeparator then ([], c, true)
    else
      match plainEmptyLines (c.rest.length + 1) c with
      | (none, c) => ([], c, true)
      | (some breaks, c) => (folded x breaks, c, true)

/-- A plain scalar whose later lines are indented by `margin` or more; the place after it; and
whether the last gap, `crossed` being the one before, crossed a line. -/
def plainFrom (inFlow : Bool) (margin : Nat) :
    (fuel : Nat) → (crossed : Bool) → Cursor → Text × Cursor × Bool
  | 0, crossed, c => ([], c, crossed)
  | fuel + 1, crossed, c =>
    let run := if c.head? = some '#' then [] else plainRun inFlow c.rest
    if run.isEmpty then ([], c, crossed)
    else
      let (between, c, crossed) := plainGap (c.skip run.length)
      if between.isEmpty || c.head? = some '#' || (!inFlow && c.column < margin) then
        (run, c, crossed)
      else
        let (more, c, crossed) := plainFrom inFlow margin fuel crossed c
        (if more.isEmpty then run else run ++ between ++ more, c, crossed)

/-- A plain scalar. -/
def plain (inFlow : Bool) (margin : Nat) (c : Cursor) : Text × Cursor × Bool :=
  plainFrom inFlow margin (c.rest.length + 1) false c

end Narration.Yaml.Scalar
