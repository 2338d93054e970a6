import Narration.Yaml.Cursor
import Narration.Yaml.Fault

/-!
# Block scalars

A block scalar is the indented lines after a bar or a greater-than sign. After a bar each line break
stays; after a greater-than sign a single one between two lines that are not indented further becomes
a space. What is kept of the breaks at the end is said in the header.

* `Scalar.Chomping`, `Scalar.header` : what is said before the first line;
* `Scalar.indentedBreaks` : blank lines and the indentation of the next line;
* `Scalar.blockLines` : the lines of a scalar;
* `Scalar.block` : a whole scalar.
-/

namespace Narration.Yaml.Scalar

/-- What is kept of the line breaks at the end: none, the first, or all. -/
inductive Chomping where
  | strip
  | clip
  | keep
  deriving Repr, DecidableEq

def chomping? : Option Char → Option Chomping
  | some '+' => some .keep
  | some '-' => some .strip
  | _ => none

/-- A digit that gives an indentation; zero is refused. -/
def increment? : Option Char → Except Fault (Option Nat)
  | some d =>
    if d = '0' then .error .malformed
    else if '1' ≤ d ∧ d ≤ '9' then .ok (some (d.toNat - 0x30)) else .ok none
  | none => .ok none

/-- The marks of a header in either order: what is kept at the end, and the indentation. -/
def header (c : Cursor) : Except Fault (Chomping × Option Nat × Cursor) := do
  match chomping? c.head? with
  | some chomping =>
    match ← increment? (c.peek? 1) with
    | some n => return (chomping, some n, c.skip 2)
    | none => return (chomping, none, c.next)
  | none =>
    match ← increment? c.head? with
    | some n =>
      match chomping? (c.peek? 1) with
      | some chomping => return (chomping, some n, c.skip 2)
      | none => return (.clip, some n, c.next)
    | none => return (.clip, none, c)

/-- The blank lines before the first line: their breaks, the greatest column that spaces reach, and
the place after them. -/
def leadingBreaks : (fuel : Nat) → (reached : Nat) → Cursor → Text × Nat × Cursor
  | 0, reached, c => ([], reached, c)
  | fuel + 1, reached, c =>
    if c.head? = some ' ' then
      let c := c.next
      leadingBreaks fuel (max reached c.column) c
    else
      match c.lineBreak? with
      | none => ([], reached, c)
      | some (x, c) =>
        let (breaks, reached, c) := leadingBreaks fuel reached c
        (x :: breaks, reached, c)

/-- The place after the spaces that make an indentation. -/
def dropIndent (indent : Nat) (c : Cursor) : Cursor :=
  c.skip ((c.rest.take (indent - c.column)).takeWhile (· = ' ')).length

/-- The breaks of the lines that are blank up to an indentation, and the place after that
indentation in the next line. -/
def indentedBreaks (indent : Nat) : (fuel : Nat) → Cursor → Text × Cursor
  | 0, c => ([], c)
  | fuel + 1, c =>
    let c := dropIndent indent c
    match c.lineBreak? with
    | none => ([], c)
    | some (x, c) =>
      let (breaks, c) := indentedBreaks indent fuel c
      (x :: breaks, c)

/-- The lines of a block scalar: their text, the break after the last of them, and the breaks of the
blank lines that follow it. -/
structure Lines where
  text : Text
  lastBreak : Text
  trailing : Text
  after : Cursor

/-- The lines at an indentation, `breaks` being those of the blank lines before. -/
def blockLines (folding : Bool) (indent : Nat) :
    (fuel : Nat) → (lastBreak breaks : Text) → Cursor → Lines
  | 0, lastBreak, breaks, c => ⟨[], lastBreak, breaks, c⟩
  | fuel + 1, lastBreak, breaks, c =>
    match c.column == indent, c.head? with
    | true, some first =>
      let (line, c) := c.span (!isBreak ·)
      let (lineBreak, c) := match c.lineBreak? with
        | some (x, c) => ([x], c)
        | none => ([], c)
      let (later, c) := indentedBreaks indent (c.rest.length + 1) c
      let joint := match c.column == indent, c.head? with
        | true, some next =>
          if folding && lineBreak == ['\n'] && !Text.isSpaceOrTab first && !Text.isSpaceOrTab next
          then if later.isEmpty then [' '] else []
          else lineBreak
        | _, _ => []
      let more := blockLines folding indent fuel lineBreak later c
      { more with text := breaks ++ line ++ joint ++ more.text }
    | _, _ => ⟨[], lastBreak, breaks, c⟩

/-- A block scalar after its bar or greater-than sign, its lines being indented by `margin` or
more. -/
def block (folding : Bool) (margin : Nat) (c : Cursor) : Except Fault (Text × Cursor) := do
  let (chomping, increment, c) ← header c
  if !endsWordNoTab c.head? then throw .malformed
  let some c := c.lineEnd? | throw .malformed
  let margin := max 1 margin
  let fuel := c.rest.length + 1
  let (breaks, indent, c) := match increment with
    | none =>
      let (breaks, reached, c) := leadingBreaks fuel 0 c
      (breaks, max margin reached, c)
    | some n =>
      let (breaks, c) := indentedBreaks (margin + n - 1) fuel c
      (breaks, margin + n - 1, c)
  let lines := blockLines folding indent fuel [] breaks c
  let ending := match chomping with
    | .strip => []
    | .clip => lines.lastBreak
    | .keep => lines.lastBreak ++ lines.trailing
  return (lines.text ++ ending, lines.after)

end Narration.Yaml.Scalar
