import Narration.Markup.Fault
import Narration.Markup.Inline.Scan
import Narration.Text.Lines

/-!
# Inline content

* `Inline.Writer` : the tokens written so far;
* `Inline.write` : the tokens of a part of a source;
* `Inline.finish` : delimiters joined and their tokens turned into marks;
* `Inline.read` : the tokens of a text, the alternative texts of images included.
-/

namespace Narration.Markup.Inline

/-- The tokens written so far. `pending` is text not yet written, reversed; `groups` holds the
delimiters at the top and in each link, `group` the places of the groups that are open. -/
structure Writer where
  memory : Memory
  tokens : Array InlineToken
  pending : Text
  groups : Array (Array Delimiter)
  group : List Nat

def Writer.empty (size : Nat) : Writer := ⟨Memory.empty size, #[], [], #[#[]], [0]⟩

namespace Writer

/-- Writes the pending text. -/
def flush (w : Writer) : Writer :=
  if w.pending.isEmpty then w
  else { w with tokens := w.tokens.push (.text w.pending.reverse), pending := [] }

/-- Writes a token. -/
def push (w : Writer) (token : InlineToken) : Writer :=
  let w := w.flush
  { w with tokens := w.tokens.push token }

def addText (w : Writer) (t : Text) : Writer := { w with pending := t.reverse ++ w.pending }

/-- Opens a mark with a group of delimiters of its own. -/
def openMark (w : Writer) (mark : Mark) : Writer :=
  let w := w.push (.opening mark)
  { w with groups := w.groups.push #[], group := w.groups.size :: w.group }

def closeMark (w : Writer) (mark : Mark) : Writer :=
  let w := w.push (.closing mark)
  { w with group := w.group.tail }

/-- Writes one mark of a delimiter run. -/
def addDelimiter (w : Writer) (marker : Char) (text : Text) (length : Nat) (flanks : Flanks) :
    Writer :=
  let w := w.push (.text text)
  let d : Delimiter :=
    ⟨marker, length, w.tokens.size - 1, flanks.canOpen, flanks.canClose, none⟩
  { w with groups := w.groups.modify (w.group.headD 0) (·.push d) }

/-- Writes a run of delimiters: tildes in pairs, a single one first when their number is odd; other
marks one by one. -/
def addRun (w : Writer) (marker : Char) (length : Nat) (flanks : Flanks) : Writer :=
  if marker = '~' then
    let w := if length % 2 = 1 then w.push (.text ['~']) else w
    (List.range (length / 2)).foldl (fun w _ => w.addDelimiter '~' ['~', '~'] 0 flanks) w
  else (List.range length).foldl (fun w _ => w.addDelimiter marker [marker] length flanks) w

end Writer

/-- How the alternative text of an image is read. -/
abbrev Alternative := Text → Except Fault (List InlineToken)

/-- How the part of a source between two places is written. -/
abbrev Writing := Writer → (i limit : Nat) → Except Fault Writer

/-- Writes one piece; `inner` writes what stands in a link. -/
def writePiece (s : Source) (alternative : Alternative) (inner : Writing) (w : Writer)
    (i limit : Nat) : Piece → Except Fault Writer
  | .text value _ => .ok (w.addText value)
  | .lineEnd _ => .ok ({ w with pending := w.pending.dropWhile (· = ' ') }.push .lineBreak)
  | .hardBreak _ => .ok (w.push .lineBreak)
  | .special value _ => .ok (w.push (.special value))
  | .code value _ => .ok (w.push (.code value))
  | .delimiters marker stop =>
    let before := if i = 0 then ' ' else (s.chars[i - 1]?).getD ' '
    let after := (s.at? limit stop).getD ' '
    .ok (w.addRun marker (stop - i) (Flanks.of before after (marker ≠ '_')))
  | .link target first last _ => do
    let w ← inner (w.openMark (.link target)) first last
    return w.closeMark (.link target)
  | .image target first last _ => do
    return w.push (.image target (← alternative (s.slice first last)))
  | .autolink target shown _ =>
    .ok (((w.openMark (.link target)).push (.text shown)).closeMark (.link target))

/-- Writes piece after piece up to the limit. -/
def writePieces (s : Source) (alternative : Alternative) (skip : Source.Skipping) (inner : Writing)
    (limit : Nat) : (fuel : Nat) → Writer → (i : Nat) → Except Fault Writer
  | 0, w, _ => .ok w.flush
  | fuel + 1, w, i =>
    if i < limit then
      match s.pieceAt skip w.memory i limit with
      | (some piece, memory) => do
        let w ← writePiece s alternative inner { w with memory } i limit piece
        writePieces s alternative skip inner limit fuel w piece.stop
      | (none, memory) =>
        writePieces s alternative skip inner limit fuel
          ({ w with memory }.addText (s.slice i (i + 1))) (i + 1)
    else .ok w.flush

/-- Writes a part of a source; without `room` for brackets it is plain text. -/
def write (s : Source) (alternative : Alternative) : (room : Nat) → Writing
  | 0, w, i, limit => .ok (w.addText (s.slice i limit)).flush
  | room + 1, w, i, limit =>
    writePieces s alternative (s.skip (room + 1)) (write s alternative room) limit (limit - i + 1) w i

/-- Joins the delimiters of each group and turns their tokens into marks. -/
def finish (w : Writer) : List InlineToken :=
  let groups := w.groups.map Delimiter.pair
  let tokens := groups.foldl (fun tokens ds => Delimiter.markStrikes ds tokens) w.tokens
  let tokens := groups.foldl (fun tokens ds => Delimiter.markEmphasis ds ds.size false tokens) tokens
  InlineToken.joinTexts tokens.toList

/-- The tokens of a text. Every image in the alternative text of another takes three of the nesting
budget. -/
def read (references : List Reference) : (budget : Nat) → Text → Except Fault (List InlineToken)
  | budget + 3, t => do
    let s : Source := ⟨t.toArray, references⟩
    let w ← write s (read references budget) maxBracketDepth (Writer.empty t.length) 0 t.length
    return finish w
  | _, _ => .error .nestedTooDeeply

/-- Line ends and the null character in the form in which inline content is read. -/
def normalize (t : Text) : Text :=
  (Text.anyNewlineToLf t).map fun c => if c = '\x00' then Char.ofNat 0xFFFD else c

/-- The tokens of a text as it stands in a document, adjacent texts made one. -/
def tokens (references : List Reference) (budget : Nat) (t : Text) :
    Except Fault (List InlineToken) :=
  return InlineToken.joinAll (← read references budget (normalize t))

end Narration.Markup.Inline
