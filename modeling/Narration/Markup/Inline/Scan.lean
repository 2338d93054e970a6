import Narration.Entity
import Narration.Markup.Inline.Delimiter
import Narration.Markup.Reference
import Narration.Url.LinkTarget

/-!
# What stands at a place of inline content

* `Source` : the characters and the link definitions;
* `Memory` : what earlier scans have found out about the source;
* `Piece` : what stands at a place, with the offset after it;
* `Source.labelEnd?` : the bracket that closes a link label;
* `Source.destination?`, `Source.titleEnd?` : target and title of a link;
* `Source.pieceAt` : the piece at a place;
* `Source.skip` : the place after a piece, looked at without its content.

Places are offsets; `limit` is the offset at which the scanned part ends.
-/

namespace Narration.Markup

/-- Inline content to be read. -/
structure Source where
  chars : Array Char
  references : List Reference

/-- The places after the pieces that were skipped before. -/
structure Memory where
  skips : Array (Option Nat)

/-- What stands at a place, with the offset after it. -/
inductive Piece where
  | text (value : Text) (stop : Nat)
  | lineEnd (stop : Nat)
  | hardBreak (stop : Nat)
  | special (value : Text) (stop : Nat)
  | code (value : Text) (stop : Nat)
  | delimiters (marker : Char) (stop : Nat)
  | link (target : Text) (first last stop : Nat)
  | image (target : Text) (first last stop : Nat)
  | autolink (target shown : Text) (stop : Nat)

/-- The offset after a piece. -/
def Piece.stop : Piece → Nat
  | text _ stop | lineEnd stop | hardBreak stop | special _ stop | code _ stop | delimiters _ stop
  | link _ _ _ stop | image _ _ _ stop | autolink _ _ stop => stop

/-- Nothing is known before the first scan. -/
def Memory.empty (size : Nat) : Memory := ⟨Array.replicate (size + 1) none⟩

/-- How deep brackets may stand inside each other. -/
def maxBracketDepth : Nat := 20

namespace Source

/-- The character at a place before the limit. -/
def at? (s : Source) (limit i : Nat) : Option Char := if i < limit then s.chars[i]? else none

/-- The characters from `first` up to `last`. -/
def slice (s : Source) (first last : Nat) : Text := (s.chars.extract first last).toList

/-- The first place from `i` on, at most `fuel` further, whose character does not satisfy `p`. -/
def passFrom (s : Source) (p : Char → Bool) : (fuel i : Nat) → Nat
  | 0, i => i
  | fuel + 1, i =>
    match s.chars[i]? with
    | some c => if p c then s.passFrom p fuel (i + 1) else i
    | none => i

/-- The first place from `i` up to `limit` whose character does not satisfy `p`. -/
def pass (s : Source) (p : Char → Bool) (i limit : Nat) : Nat := s.passFrom p (limit - i) i

/-- Blanks between the parts of a link. -/
def isLinkSpace (c : Char) : Bool := c == ' ' || c == '\t' || c == '\n'

/-- Characters at which plain text stops. -/
def endsText (c : Char) : Bool := "\n!#$%&*+-:<=>@[\\]^_\x60\x7b\x7d~".toList.contains c

/-! ## Code spans -/

/-- Code without its fence: line feeds become spaces, and one space goes from either end when both
have one and there is more than spaces. -/
def codeText (t : Text) : Text :=
  let t := t.map fun c => if c = '\n' then ' ' else c
  if t.head? = some ' ' && t.getLast? = some ' ' && !t.all (· = ' ') then t.tail.dropLast else t

/-- The extent of the first backtick run of exactly the given length from `i` on. -/
def closingRun? (s : Source) (length : Nat) : (fuel : Nat) → (i : Nat) → Option (Nat × Nat)
  | 0, _ => none
  | fuel + 1, i =>
    let first := s.pass (· ≠ '\x60') i s.chars.size
    if first < s.chars.size then
      let last := s.pass (· = '\x60') first s.chars.size
      if last - first = length then some (first, last) else s.closingRun? length fuel last
    else none

/-- A code span at a backtick, or the backticks themselves when no run as long follows. -/
def codeAt (s : Source) (i limit : Nat) : Piece :=
  let start := s.pass (· = '\x60') i limit
  match s.closingRun? (start - i) (s.chars.size + 1) start with
  | some (first, last) => .code (codeText (s.slice start first)) last
  | none => .text (s.slice i start) start

/-! ## Links -/

/-- The end of a target in angle brackets. -/
def bracketedEnd? (s : Source) (limit : Nat) : (fuel : Nat) → (i : Nat) → Option Nat
  | 0, _ => none
  | fuel + 1, i => do
    let c ← s.at? limit i
    if c = '\n' ∨ c = '<' then none
    else if c = '>' then some i
    else if c = '\\' ∧ i + 1 < limit then s.bracketedEnd? limit fuel (i + 2)
    else s.bracketedEnd? limit fuel (i + 1)

/-- The end of a bare target: a blank, a control or a parenthesis that closes none of its own.
Answers the end and how many parentheses are open there. -/
def bareEnd? (s : Source) (limit : Nat) : (fuel : Nat) → (i depth : Nat) → Option (Nat × Nat)
  | 0, i, depth => some (i, depth)
  | fuel + 1, i, depth =>
    match s.at? limit i with
    | none => some (i, depth)
    | some c =>
      if c.toNat ≤ 0x20 ∨ c.toNat = 0x7F then some (i, depth)
      else if c = '\\' ∧ i + 1 < limit then
        if s.at? limit (i + 1) = some ' ' then some (i, depth)
        else s.bareEnd? limit fuel (i + 2) depth
      else if c = '(' then
        if depth ≥ 32 then none else s.bareEnd? limit fuel (i + 1) (depth + 1)
      else if c = ')' then
        if depth = 0 then some (i, depth) else s.bareEnd? limit fuel (i + 1) (depth - 1)
      else s.bareEnd? limit fuel (i + 1) depth

/-- The link target at a place, and the offset after it. -/
def destination? (s : Source) (i limit : Nat) : Option (Text × Nat) :=
  if s.chars[i]? = some '<' then
    (s.bracketedEnd? limit (limit - i) (i + 1)).map fun stop =>
      (Entity.unescape (s.slice (i + 1) stop), stop + 1)
  else
    match s.bareEnd? limit (limit - i + 1) i 0 with
    | some (stop, 0) =>
      if stop = i then none else some (Entity.unescape (s.slice i stop), stop)
    | _ => none

/-- The offset after a title that `quote` closes. -/
def titleTail? (s : Source) (quote : Char) (limit : Nat) : (fuel : Nat) → (i : Nat) → Option Nat
  | 0, _ => none
  | fuel + 1, i => do
    let c ← s.at? limit i
    if c = quote then some (i + 1)
    else if c = '(' ∧ quote = ')' then none
    else if c = '\\' ∧ i + 1 < limit then s.titleTail? quote limit fuel (i + 2)
    else s.titleTail? quote limit fuel (i + 1)

/-- The offset after the title at a place. -/
def titleEnd? (s : Source) (i limit : Nat) : Option Nat := do
  let c ← s.at? limit i
  if c = '"' ∨ c = '\'' then s.titleTail? c limit (limit - i) (i + 1)
  else if c = '(' then s.titleTail? ')' limit (limit - i) (i + 1)
  else none

/-- Passes blanks, and a title with the blanks after it when blanks precede it. -/
def passTitle (s : Source) (i limit : Nat) : Nat :=
  let title := s.pass isLinkSpace i limit
  if title < limit ∧ title ≠ i then
    match s.titleEnd? title limit with
    | some stop => s.pass isLinkSpace stop limit
    | none => title
  else title

/-- The kept form of a link target, unless it is refused. -/
def target? (t : Text) : Option Text :=
  let target := LinkTarget.normalize t
  if LinkTarget.isAllowed target then some target else none

/-- A target and title in parentheses, given the place after the opening one: `none` when nothing
but blanks follows, else the target and the place where the closing parenthesis should be. A target
that is refused is not passed. -/
def inlineTarget? (s : Source) (i limit : Nat) : Option (Text × Nat) :=
  let i := s.pass isLinkSpace i limit
  if i ≥ limit then none
  else
    match s.destination? i limit with
    | some (t, stop) =>
      match target? t with
      | some target => some (target, s.passTitle stop limit)
      | none => some ([], i)
    | none => some ([], i)

/-- How a piece is skipped: the place after it. -/
abbrev Skipping := Memory → (i limit : Nat) → Nat × Memory

/-- Looks from `i` on for the bracket that closes the label, `depth` brackets being open. With
`alone` the label may not hold another link. -/
def labelEndFrom (s : Source) (skip : Skipping) (alone : Bool) (limit : Nat) :
    (fuel : Nat) → (i depth : Nat) → Memory → Option Nat × Memory
  | 0, _, _, memory => (none, memory)
  | fuel + 1, i, depth, memory =>
    match s.at? limit i with
    | none => (none, memory)
    | some c =>
      let depth := if c = ']' then depth - 1 else depth
      if depth = 0 then (some i, memory)
      else
        let (next, memory) := skip memory i limit
        if c = '[' then
          if next = i + 1 then s.labelEndFrom skip alone limit fuel next (depth + 1) memory
          else if alone then (none, memory)
          else s.labelEndFrom skip alone limit fuel next depth memory
        else s.labelEndFrom skip alone limit fuel next depth memory

/-- The place of the bracket that closes the label opened at `i`. -/
def labelEnd? (s : Source) (skip : Skipping) (alone : Bool) (memory : Memory) (i limit : Nat) :
    Option Nat × Memory :=
  s.labelEndFrom skip alone limit (limit - i) (i + 1) 1 memory

/-- A target by reference, the place after the label being `i`: the target and the place after the
reference. The text between `first` and `last` is the label unless another one follows. -/
def referenceTarget? (s : Source) (skip : Skipping) (memory : Memory)
    (i after first last limit : Nat) : Option (Text × Nat) × Memory :=
  let ownLabel := s.slice first last
  let (label, stop, memory) :=
    if s.at? limit i = some '[' then
      match s.labelEnd? skip false memory i limit with
      | (some stop, memory) => (s.slice (i + 1) stop, stop + 1, memory)
      | (none, memory) => ([], after, memory)
    else ([], after, memory)
  let label := if label.isEmpty then ownLabel else label
  ((Reference.find? s.references label).map (·, stop), memory)

/-- A link at an opening bracket. A target in parentheses that is not closed leaves the label to be
read as a reference. -/
def linkAt (s : Source) (skip : Skipping) (memory : Memory) (i limit : Nat) :
    Option Piece × Memory :=
  match s.labelEnd? skip true memory i limit with
  | (none, memory) => (none, memory)
  | (some last, memory) =>
    let after := last + 1
    let byReference (place : Nat) : Option Piece × Memory :=
      match s.referenceTarget? skip memory place after (i + 1) last limit with
      | (some (target, stop), memory) => (some (.link target (i + 1) last stop), memory)
      | (none, memory) => (none, memory)
    if s.at? limit after = some '(' then
      match s.inlineTarget? (after + 1) limit with
      | none => (none, memory)
      | some (target, stop) =>
        if s.at? limit stop = some ')' then (some (.link target (i + 1) last (stop + 1)), memory)
        else byReference (stop + 1)
    else byReference after

/-- An image at an exclamation mark. -/
def imageAt (s : Source) (skip : Skipping) (memory : Memory) (i limit : Nat) :
    Option Piece × Memory :=
  if s.at? limit (i + 1) ≠ some '[' then (none, memory)
  else
    match s.labelEnd? skip false memory (i + 1) limit with
    | (none, memory) => (none, memory)
    | (some last, memory) =>
      let after := last + 1
      if s.at? limit after = some '(' then
        match s.inlineTarget? (after + 1) limit with
        | none => (none, memory)
        | some (target, stop) =>
          if s.at? limit stop = some ')' then (some (.image target (i + 2) last (stop + 1)), memory)
          else (none, memory)
      else
        match s.referenceTarget? skip memory after after (i + 2) last limit with
        | (some (target, stop), memory) => (some (.image target (i + 2) last stop), memory)
        | (none, memory) => (none, memory)

/-! ## Autolinks -/

/-- A text without a line feed at its end. -/
def dropFinalNewline (t : Text) : Text := if t.getLast? = some '\n' then t.dropLast else t

/-- An absolute link target: a scheme of two to thirty-two characters, a colon, and no blanks,
controls or angle brackets. A line feed may follow. -/
def isAbsolute (t : Text) : Bool :=
  match t.span (· ≠ ':') with
  | (scheme, ':' :: rest) =>
    scheme.head?.any Char.isAlpha && 2 ≤ scheme.length && scheme.length ≤ 32 &&
      scheme.all (fun c => c.isAlphanum || c == '+' || c == '.' || c == '-') &&
      (dropFinalNewline rest).all fun c => c ≠ '<' && c ≠ '>' && 0x20 < c.toNat
  | _ => false

/-- A label of a mail host: at most 63 letters, digits and inner hyphens. -/
def isMailLabel (t : Text) : Bool :=
  t.length ≤ 63 && t.all (fun c => c.isAlphanum || c == '-') &&
    t.head?.any Char.isAlphanum && t.getLast?.any Char.isAlphanum

/-- A mail address. A line feed may follow. -/
def isMail (t : Text) : Bool :=
  match Text.cut? '@' (dropFinalNewline t) with
  | some (user, host) =>
    !user.isEmpty &&
      user.all (fun c => c.isAlphanum || ".!#$%&'*+/=?^_\x60\x7b|\x7d~-".toList.contains c) &&
      (Text.splitOn '.' host).all isMailLabel
  | none => false

/-- A link target or a mail address in angle brackets. -/
def autolinkAt (s : Source) (i limit : Nat) : Option Piece :=
  let stop := s.pass (fun c => c ≠ '<' && c ≠ '>') (i + 1) limit
  if s.at? limit stop = some '>' then
    let t := s.slice (i + 1) stop
    let full? :=
      if isAbsolute t then some t else if isMail t then some ("mailto:".toList ++ t) else none
    do
      let target ← target? (← full?)
      return .autolink target (LinkTarget.readable t) (stop + 1)
  else none

/-! ## Pieces -/

/-- A backslash: with a line feed it breaks the line, before a mark of ASCII it stands for the mark,
else for itself. -/
def escapeAt (s : Source) (i limit : Nat) : Option Piece := do
  let c ← s.at? limit (i + 1)
  if c = '\n' then return .hardBreak (s.pass Text.isSpaceOrTab (i + 2) limit)
  else if Text.isAsciiPunctuation c then return .special [c] (i + 2)
  else return .special ['\\', c] (i + 2)

/-- What stands at a place; `none` for a mark that means nothing there. -/
def pieceAt (s : Source) (skip : Skipping) (memory : Memory) (i limit : Nat) :
    Option Piece × Memory :=
  match s.chars[i]? with
  | none => (none, memory)
  | some c =>
    if !endsText c then
      let stop := s.pass (fun c => !endsText c) i s.chars.size
      (some (.text (s.slice i stop) stop), memory)
    else
      match c with
      | '\n' => (some (.lineEnd (s.pass Text.isSpaceOrTab (i + 1) limit)), memory)
      | '\\' => (s.escapeAt i limit, memory)
      | '\x60' => (s.codeAt i limit, memory)
      | '~' =>
        let stop := s.pass (· = '~') i limit
        (if stop - i < 2 then none else some (.delimiters '~' stop), memory)
      | '*' => (some (.delimiters '*' (s.pass (· = '*') i limit)), memory)
      | '_' => (some (.delimiters '_' (s.pass (· = '_') i limit)), memory)
      | '[' => s.linkAt skip memory i limit
      | '!' => s.imageAt skip memory i limit
      | '<' => (s.autolinkAt i limit, memory)
      | '&' =>
        ((Entity.reference? (s.slice i (i + 40))).map fun (value, length) =>
          .special value (i + length), memory)
      | _ => (none, memory)

/-- The place after a piece when it is only passed over: delimiters are passed one by one. -/
def stopAfter (i : Nat) : Option Piece → Nat
  | none => i + 1
  | some (.delimiters ..) => i + 1
  | some piece => piece.stop

/-- Passes over the piece at a place. `room` bounds how deep brackets may stand inside each other;
beyond that everything up to the limit is passed at once. -/
def skip (s : Source) : (room : Nat) → Skipping
  | room, memory, i, limit =>
    match memory.skips[i]?.join with
    | some stop => (stop, memory)
    | none =>
      let (stop, memory) : Nat × Memory := match room with
        | 0 => (limit + 1, memory)
        | room + 1 =>
          let (piece, memory) := s.pieceAt (s.skip room) memory i limit
          (stopAfter i piece, memory)
      (stop, { memory with skips := memory.skips.setIfInBounds i (some stop) })

end Source
end Narration.Markup
