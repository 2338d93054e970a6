import Narration.Markup.Node
import Narration.Markup.Reference

/-!
# Stretches of a text

* `Stretch` : some characters together with the offset of the first;
* `Stretch.line`, `Stretch.afterLine` : the first line and what follows its end;
* `Stretch.drop`, `Stretch.take`, `Stretch.trimStart` : parts that keep their offsets;
* `Scope` : where the lines of a text start, and the link definitions that hold in it;
* `Scope.position` : the position of a piece of the text.
-/

namespace Narration.Markup

/-- Consecutive characters of a text, with the offset of the first. -/
structure Stretch where
  start : Nat
  chars : Text
  deriving Repr, DecidableEq, Inhabited

namespace Stretch

/-- The offset after the last character. -/
def stop (s : Stretch) : Nat := s.start + s.chars.length

def drop (s : Stretch) (n : Nat) : Stretch := ⟨s.start + min n s.chars.length, s.chars.drop n⟩

def take (s : Stretch) (n : Nat) : Stretch := ⟨s.start, s.chars.take n⟩

/-- The part that begins at an offset. -/
def since (s : Stretch) (offset : Nat) : Stretch := s.drop (offset - s.start)

/-- The part that ends at an offset. -/
def till (s : Stretch) (offset : Nat) : Stretch := s.take (offset - s.start)

/-- The characters up to the first line feed. -/
def line (s : Stretch) : Stretch := ⟨s.start, s.chars.takeWhile (· ≠ '\n')⟩

/-- What follows the first line feed. -/
def afterLine (s : Stretch) : Stretch := s.drop (s.line.chars.length + 1)

/-- The blanks at the front left out. -/
def trimStart (s : Stretch) : Stretch := s.drop (Text.indent s.chars)

/-- The blanks at both ends left out. -/
def trim (s : Stretch) : Stretch :=
  let s := s.trimStart
  ⟨s.start, Text.trimEnd s.chars⟩

/-- Whether the first line holds nothing but blanks. -/
def lineBlank (s : Stretch) : Bool := Text.allBlank s.line.chars

/-- The stretch after leading blank lines. -/
def skipBlankLines : (fuel : Nat) → Stretch → Stretch
  | 0, s => s
  | fuel + 1, s =>
    if !s.chars.isEmpty && s.lineBlank then skipBlankLines fuel s.afterLine else s

end Stretch

/-- The offsets after the line feeds of a text whose first character has the given offset. -/
def lineStartsAfter (offset : Nat) : Text → List Nat
  | [] => []
  | c :: t =>
    if c = '\n' then (offset + 1) :: lineStartsAfter (offset + 1) t
    else lineStartsAfter (offset + 1) t

/-- What the reader of a text looks up: where its lines start and which link targets are defined. -/
structure Scope where
  lineStarts : List Nat
  references : List Reference

namespace Scope

/-- The scope of a text under given definitions. -/
def ofText (t : Text) (references : List Reference) : Scope := ⟨0 :: lineStartsAfter 0 t, references⟩

/-- The line of an offset, counted from one. -/
def lineOf (scope : Scope) (offset : Nat) : Nat := scope.lineStarts.countP (· ≤ offset)

/-- The position from `start` up to `stop`. -/
def position (scope : Scope) (start stop : Nat) : Position :=
  { startLine := scope.lineOf start, endLine := scope.lineOf (max start (stop - 1)), start, stop }

/-- A node that covers the text from `start` up to `stop`. -/
def node (scope : Scope) (kind : Kind) (start stop : Nat) (children : List Node := []) : Node :=
  .mk kind children (some (scope.position start stop))

end Scope
end Narration.Markup
