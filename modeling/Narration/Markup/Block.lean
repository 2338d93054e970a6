import Narration.Markup.Content
import Narration.Markup.LineForm

/-!
# Blocks

A document is read block by block. Each reader looks at a stretch from its front and answers a node
with the offset at which reading goes on; a reader that answers `none` leaves the stretch to be read
as a paragraph.

* `Block.Inner` : how the insides of containers are read;
* `Block.frontMatter?`, `Block.modules`, `Block.fence`, `Block.comment?`, `Block.expression?`,
  `Block.component?`, `Block.heading`, `Block.table`, `Block.quote`, `Block.list`,
  `Block.paragraph` : the kinds of block;
* `Block.next` : the block at the front of a stretch;
* `Block.readAll` : the blocks of a stretch;
* `Block.readParts` : the blocks of lines that are not next to each other.
-/

namespace Narration.Markup.Block

/-- A node, and the offset at which reading goes on. -/
abbrev Result := Node × Nat

/-- How the insides of containers are read: inline content, the blocks of a stretch, and the blocks
of separate pieces of lines. -/
structure Inner where
  content : Stretch → Except Fault (List Node)
  blocks : Stretch → Except Fault (List Node)
  parts : List Stretch → Except Fault (List Node)

/-! ## Front matter and modules -/

/-- A line feed, with a carriage return before it or not, at the front of a text; what follows. -/
def lineEnd? : Text → Option Text
  | '\r' :: '\n' :: t => some t
  | '\n' :: t => some t
  | _ => none

/-- Three hyphens with spaces and tabs after them at the front of a text; what follows. -/
def hyphens? (t : Text) : Option Text :=
  (Text.after? ['-', '-', '-'] t).map (·.dropWhile Text.isSpaceOrTab)

/-- The closing hyphens, a line end or the end of the text behind them; what follows. -/
def closingHyphens? (t : Text) : Option Text := do
  let rest ← hyphens? t
  if rest.isEmpty || (lineEnd? rest).isSome then some rest else none

/-- The first place at which a line ends and closing hyphens follow: the text before it, reversed,
and what follows the hyphens. -/
def untilHyphens? (before : Text) : Text → Option (Text × Text)
  | [] => none
  | c :: t =>
    match (lineEnd? (c :: t)).bind closingHyphens? with
    | some rest => some (before.reverse, rest)
    | none => untilHyphens? (c :: before) t

/-- Front matter at the beginning of a document: its source and its length. -/
def frontMatter? (t : Text) : Option (Text × Nat) := do
  let inside ← (← hyphens? t) |> lineEnd?
  match untilHyphens? [] inside with
  | some (source, rest) => return (source, t.length - rest.length)
  | none => return ([], t.length - (← closingHyphens? inside).length)

/-- The length of imports and exports: up to a line end outside all brackets or before a blank line,
or to the end of the line of a string that is never closed. The first `skip` characters belong to
a string. -/
def modulesLength : (depth skip : Nat) → Text → Nat
  | _, _, [] => 0
  | depth, skip + 1, _ :: t => modulesLength depth skip t + 1
  | depth, 0, c :: t =>
    if Braces.isQuote c then
      match Braces.stringLength? (c :: t) with
      | some length => modulesLength depth (length - 1) t + 1
      | none => ((c :: t).takeWhile (· ≠ '\n')).length
    else if c = '\n' && (depth = 0 || Text.allBlank (t.takeWhile (· ≠ '\n'))) then 0
    else
      let depth :=
        if "(\x7b[".toList.contains c then depth + 1
        else if ")\x7d]".toList.contains c then depth - 1
        else depth
      modulesLength depth 0 t + 1

/-- Imports and exports. -/
def modules (scope : Scope) (s : Stretch) : Result :=
  let source := s.take (modulesLength 0 0 s.chars)
  (scope.node (.modules (Text.trimEnd source.chars)) s.start source.stop, source.stop)

/-! ## Code, comments, expressions and components -/

/-- The stretch from the line that closes a fence. -/
def fenceEnd? (mark : Char) (length : Nat) : (fuel : Nat) → Stretch → Option Stretch
  | 0, _ => none
  | fuel + 1, s =>
    if s.chars.isEmpty then none
    else if LineForm.closesFence mark length s.line.trim.chars then some s
    else fenceEnd? mark length fuel s.afterLine

/-- A code block, up to the line that closes it or to the end. -/
def fence (scope : Scope) (s : Stretch) (mark : Char) (length : Nat) : Result :=
  let opening := s.line.trim
  let info := Text.trim (opening.chars.drop length)
  let code := s.afterLine
  match fenceEnd? mark length code.chars.length code with
  | some closing =>
    let inside := Text.dropEndWhile (· = '\n') (code.till closing.start).chars
    (scope.node (.codeBlock info inside) opening.start closing.line.stop, closing.afterLine.start)
  | none => (scope.node (.codeBlock info code.chars) opening.start s.stop, s.stop)

/-- A comment at the front, up to its end. -/
def comment? (scope : Scope) (s : Stretch) : Option Result := do
  let n ← Text.find? s.chars ['-', '-', '>']
  let source := s.take (n + 3)
  return (scope.node (.raw source.chars) s.start source.stop, source.stop)

/-- An expression that ends its line. -/
def expression? (scope : Scope) (s : Stretch) : Option Result := do
  let (source, length) ← Tag.braced? s.chars
  let rest := s.drop length
  if rest.lineBlank then some (scope.node (.expression source) s.start rest.start, rest.start)
  else none

/-- A component that ends its line, or a tag that stands for nothing: one that closes a component
which is not open, or opens one that is not closed. -/
def component? (scope : Scope) (inner : Inner) (s : Stretch) : Except Fault (Option Result) :=
  match Tag.read? s.start s.chars with
  | none => .ok none
  | some tag =>
    let raw := (scope.node (.raw (s.till tag.stop).chars) s.start tag.stop, tag.stop)
    let after := s.since tag.stop
    let kind := Kind.component tag.name tag.attributes
    if tag.closing then .ok (some raw)
    else if tag.selfClosing then
      .ok (if after.lineBlank then some (scope.node kind s.start tag.stop, tag.stop) else none)
    else
      match Closing.find? tag.name after.start after.chars with
      | none => .ok (some raw)
      | some (first, stop) =>
        if (s.since stop).lineBlank then do
          let inside := after.till first
          let children ←
            if inside.chars.contains '\n' then inner.blocks inside else inner.content inside
          return some (scope.node kind s.start stop children, stop)
        else .ok none

/-! ## Headings, tables and paragraphs -/

/-- A heading marked in front. -/
def heading (scope : Scope) (inner : Inner) (s : Stretch) (depth first length : Nat) :
    Except Fault Result := do
  let line := s.line.trimStart
  let children ←
    if length = 0 then pure [] else inner.content ((line.drop first).take length)
  return (scope.node (.heading depth) line.start line.stop children, s.afterLine.start)

/-- The cells of a row, cut at the bars that no backslash precedes. `before` is the last character,
`cell` the current cell, reversed, with the offset after it. -/
def cells (before : Char) (offset : Nat) (cell : Text) : Text → List Stretch
  | [] => [⟨offset - cell.length, cell.reverse⟩]
  | c :: t =>
    if c = '|' ∧ before ≠ '\\' then
      ⟨offset - cell.length, cell.reverse⟩ :: cells c (offset + 1) [] t
    else cells c (offset + 1) (c :: cell) t

/-- A table row. A bar at either end belongs to no cell. -/
def row (scope : Scope) (inner : Inner) (line : Stretch) : Except Fault Node := do
  let bare := line.trim
  let (before, s) := match bare.chars with
    | '|' :: _ => ('|', bare.drop 1)
    | _ => (' ', bare)
  let s :=
    if s.chars.getLast? = some '|' && s.chars.dropLast.getLast? ≠ some '\\' then
      s.take (s.chars.length - 1)
    else s
  let nodes ← (cells before s.start [] s.chars).mapM fun cell => do
    let cell := cell.trim
    return Node.mk .tableCell (← if cell.chars.isEmpty then pure [] else inner.content cell) none
  return scope.node .tableRow bare.start line.stop nodes

/-- The rows of a table from the `n`-th line on, with the end of the last line and the offset at
which reading goes on. The second line is the rule; from the third on a line without a bar ends
the table. -/
def rows (scope : Scope) (inner : Inner) : (fuel : Nat) → (n last : Nat) → Stretch →
    Except Fault (List Node × Nat × Nat)
  | 0, _, last, s => .ok ([], last, s.start)
  | fuel + 1, n, last, s => do
    let line := s.line
    if s.chars.isEmpty || Text.allBlank line.chars || (1 < n && !line.chars.contains '|') then
      return ([], last, s.start)
    else
      let own ← if n = 1 then pure [] else (row scope inner line).map ([·])
      let (nodes, last, next) ← rows scope inner fuel (n + 1) line.stop s.afterLine
      return (own ++ nodes, last, next)

/-- Whether the second line makes a table of the first. -/
def isTable (s : Stretch) : Bool :=
  let second := s.afterLine
  s.line.chars.contains '|' && !second.chars.isEmpty &&
    LineForm.isTableRule second.line.trim.chars

def table (scope : Scope) (inner : Inner) (s : Stretch) : Except Fault Result := do
  let (nodes, last, next) ← rows scope inner (s.chars.length + 1) 0 s.start s
  return (scope.node .table s.trimStart.start last nodes, next)

/-- What ends a paragraph. -/
inductive ParagraphEnd where
  | underline (depth : Nat) (line : Stretch)
  | other

/-- The end of the last line of a paragraph, what ended it, and the stretch after it. -/
def paragraphEnd : (fuel : Nat) → (last : Nat) → Stretch → Nat × ParagraphEnd × Stretch
  | 0, last, s => (last, .other, s)
  | fuel + 1, last, s =>
    let line := s.line
    let t := line.trim.chars
    if s.chars.isEmpty || t.isEmpty then (last, .other, s)
    else
      match LineForm.underline? t with
      | some depth => (last, .underline depth line, s.afterLine)
      | none =>
        if LineForm.interrupts t then (last, .other, s)
        else paragraphEnd fuel line.stop s.afterLine

/-- A paragraph, or a heading when its last line is underlined. -/
def paragraph (scope : Scope) (inner : Inner) (s : Stretch) : Except Fault Result := do
  let first := s.trimStart
  let (last, ending, rest) := paragraphEnd s.chars.length s.line.stop s.afterLine
  match ending with
  | .underline depth line =>
    let children ← inner.content (first.till last)
    return (scope.node (.heading depth) first.start line.stop children, rest.start)
  | .other =>
    let content := (first.till last).trim
    let children ← inner.content content
    return (scope.node .paragraph content.start content.stop children, rest.start)

/-! ## Quotes and lists -/

/-- The lines of a quote without their marks, and the stretch after them. A line without a mark goes
on with the quote unless it starts a block. -/
def quoteLines : (fuel : Nat) → (first : Bool) → Stretch → List Stretch × Stretch
  | 0, _, s => ([], s)
  | fuel + 1, first, s =>
    let line := s.line
    let bare := line.trimStart
    let stripped := bare.trim.chars
    if s.chars.isEmpty || stripped.isEmpty then ([], s)
    else
      let part? :=
        match bare.chars with
        | '>' :: ' ' :: _ => some (bare.drop 2)
        | '>' :: _ => some (bare.drop 1)
        | _ => if first || LineForm.interrupts stripped then none else some bare
      match part? with
      | none => ([], s)
      | some part =>
        let (parts, rest) := quoteLines fuel false s.afterLine
        (part :: parts, rest)

def quote (scope : Scope) (inner : Inner) (s : Stretch) : Except Fault Result := do
  let (parts, rest) := quoteLines s.chars.length true s
  let last := (parts.getLast?.map Stretch.stop).getD s.start
  return (scope.node .quote s.trimStart.start last (← inner.parts parts), rest.start)

/-- The lines of a list item after its first, without their indent up to `width`; the end of the last
one that is not blank; and the stretch after them. A line that is not indented beyond `base` ends
the item when it starts a block, and so do blank lines before such a line. -/
def itemLines (base width : Nat) : (fuel : Nat) → (last : Nat) → Stretch →
    List Stretch × Nat × Stretch
  | 0, last, s => ([], last, s)
  | fuel + 1, last, s =>
    let line := s.line
    let indent := Text.indent line.chars
    if s.chars.isEmpty then ([], last, s)
    else if s.lineBlank then
      let next := Stretch.skipBlankLines s.chars.length s.afterLine
      if next.chars.isEmpty || Text.indent next.line.chars ≤ base then ([], last, s)
      else
        let (parts, last, rest) := itemLines base width fuel last s.afterLine
        (line.take 0 :: parts, last, rest)
    else if indent ≤ base && ((LineForm.marker? (line.chars.drop indent)).isSome ||
        LineForm.interrupts line.trim.chars) then ([], last, s)
    else
      let (parts, last, rest) := itemLines base width fuel line.stop s.afterLine
      (line.drop (min indent width) :: parts, last, rest)

/-- The items of a list whose first marker stands at `base`, with the end of the last item and the
offset at which reading goes on. Blank lines belong to the list only between two items. -/
def items (scope : Scope) (inner : Inner) (base : Nat) : (fuel : Nat) → (last : Nat) → Stretch →
    Except Fault (List Node × Nat × Nat)
  | 0, last, s => .ok ([], last, s.start)
  | fuel + 1, last, s =>
    let line := s.line
    let indent := Text.indent line.chars
    match LineForm.marker? (line.chars.drop indent) with
    | none => .ok ([], last, s.start)
    | some (_, length) =>
      if base + 3 < indent then .ok ([], last, s.start)
      else do
        let width := indent + length
        let (parts, stop, rest) := itemLines base width s.chars.length line.stop s.afterLine
        let children ← inner.parts (line.drop width :: parts)
        let item := scope.node .listItem (s.start + indent) stop children
        let next := Stretch.skipBlankLines rest.chars.length rest
        let following := next.line.chars
        let ind := Text.indent following
        if next.chars.isEmpty || next.start = rest.start ||
            ((LineForm.marker? (following.drop ind)).isSome && ind ≤ base + 3) then
          let resume := if next.chars.isEmpty then rest else next
          let (nodes, last, stop) ← items scope inner base fuel stop resume
          return (item :: nodes, last, stop)
        else return ([item], stop, rest.start)

def list (scope : Scope) (inner : Inner) (s : Stretch) : Except Fault Result := do
  let base := Text.indent s.line.chars
  let marker? := LineForm.marker? (s.line.chars.drop base)
  let (nodes, last, next) ← items scope inner base s.chars.length s.start s
  let ordered := marker?.any fun (marker, _) => LineForm.isNumbered marker
  return (scope.node (.list ordered) (if nodes.isEmpty then s.start else s.start + base) last nodes,
    next)

/-! ## Reading blocks -/

/-- The block at the front of a stretch whose first line is not blank. At the top of a document
unindented imports and exports are modules. -/
def next (scope : Scope) (inner : Inner) (top : Bool) (s : Stretch) : Except Fault Result :=
  let line := s.line
  let indent := Text.indent line.chars
  let first := s.trimStart
  let t := line.trim.chars
  let near := indent < 4
  let rawLine : Except Fault Result :=
    .ok (scope.node (.raw t) first.start line.stop, s.afterLine.start)
  let orParagraph : Option Result → Except Fault Result
    | some result => .ok result
    | none => paragraph scope inner s
  if top && indent = 0 && LineForm.isModules line.chars then .ok (modules scope s)
  else match (if near then LineForm.fence? t else none) with
  | some (mark, length) => .ok (fence scope s mark length)
  | none =>
  if LineForm.isComment t then orParagraph (comment? scope first)
  else if t.head? = some '\x7b' then orParagraph (expression? scope first)
  else if LineForm.opensTag t then do orParagraph (← component? scope inner first)
  else match (if near then LineForm.heading? t else none) with
  | some (depth, place, length) => heading scope inner s depth place length
  | none =>
  if near && LineForm.isRule t then rawLine
  else if isTable s then table scope inner s
  else if near && t.head? = some '>' then quote scope inner s
  else if near && (LineForm.marker? t).isSome then list scope inner s
  else if near && LineForm.isDefinition t then rawLine
  else paragraph scope inner s

/-- The blocks of a stretch. Every step should move forward, so that there are at most as many steps
as characters; when `fuel` allows for these and is used up, reading does not end. -/
def sequence (scope : Scope) (inner : Inner) (top : Bool) : (fuel : Nat) → Stretch →
    Except Fault (List Node)
  | 0, _ => .error .endless
  | fuel + 1, s =>
    if s.chars.isEmpty then .ok []
    else if s.lineBlank then sequence scope inner top fuel s.afterLine
    else do
      let (node, stop) ← next scope inner top s
      return node :: (← sequence scope inner top fuel (s.since stop))

/-- The offset in the document of an offset in the joined parts. -/
def outerOffset (joined : Scope) (parts : List Stretch) (offset : Nat) : Nat :=
  let i := min (joined.lineOf offset - 1) (parts.length - 1)
  (parts[i]?.map Stretch.start).getD 0 + (offset - joined.lineStarts.getD i 0)

/-- The same for an offset after something. -/
def outerStop (joined : Scope) (parts : List Stretch) (offset : Nat) : Nat :=
  if offset = 0 then outerOffset joined parts 0 else outerOffset joined parts (offset - 1) + 1

/-- The position in the document of a position in the joined parts. -/
def outerPosition (scope joined : Scope) (parts : List Stretch) (p : Position) : Position :=
  let start := outerOffset joined parts p.start
  { scope.position start (max start (outerStop joined parts p.stop)) with copies := p.copies }

/-- The attribute with its span in the document. -/
def outerAttribute (joined : Scope) (parts : List Stretch) (a : Attribute) : Attribute :=
  { a with span := a.span.map fun (first, stop) =>
      (outerOffset joined parts first, outerStop joined parts stop) }

/-- The kind of a node with its attributes placed in the document. -/
def outerKind (joined : Scope) (parts : List Stretch) : Kind → Kind
  | .component name attributes => .component name (attributes.map (outerAttribute joined parts))
  | kind => kind

/-- A function applied several times. -/
def times {α : Type} (f : α → α) : Nat → α → α
  | 0, a => a
  | n + 1, a => times f n (f a)

mutual

/-- A node of the joined parts placed in the document. All copies of a node share one position, which
is moved once for each of them. -/
def place (scope joined : Scope) (parts : List Stretch) : Node → Node
  | .mk kind children position =>
    let copies := position.elim 1 (·.copies)
    .mk (times (outerKind joined parts) copies kind) (placeAll scope joined parts children)
      (position.map (times (outerPosition scope joined parts) copies))

/-- Nodes of the joined parts placed in the document. -/
def placeAll (scope joined : Scope) (parts : List Stretch) : List Node → List Node
  | [] => []
  | node :: nodes => place scope joined parts node :: placeAll scope joined parts nodes

end

/-- The blocks of pieces of lines, read as the text that they make together. -/
def readParts (read : Scope → Stretch → Except Fault (List Node)) (scope : Scope)
    (parts : List Stretch) : Except Fault (List Node) := do
  if parts.isEmpty then return []
  let text := Text.unlines (parts.map Stretch.chars)
  let joined := Scope.ofText text scope.references
  return placeAll scope joined parts (← read joined ⟨0, text⟩)

/-- The blocks of a stretch. Of the nesting budget a component takes two, a quote or an item
three. -/
def readAll : (budget : Nat) → (top : Bool) → Scope → Stretch → Except Fault (List Node)
  | budget + 3, top, scope, s =>
    let inner : Inner :=
      { content := Content.read scope (budget + 3)
        blocks := readAll (budget + 1) false scope
        parts := readParts (readAll budget false) scope }
    sequence scope inner top (s.chars.length + 1) s
  | _, _, _, _ => .error .nestedTooDeeply

end Narration.Markup.Block
