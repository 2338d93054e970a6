import Narration.Buffer
import Narration.Player.Block

/-!
# Putting narration into a document

* `Player.dropNode` : a node deleted from a document, with its lines where it stands alone;
* `Player.importAnchor` : the line after the last module statement;
* `Player.insertBlock` : a new narration block, before the first content or after the imports;
* `Player.updateInPlace` : the payload and the fingerprint of a block exchanged, repeated blocks
  deleted;
* `Player.inject` : whichever of these the placement asks for, and the outcome.
-/

namespace Narration.Player

/-- What is written into a document. -/
structure Narrated where
  voices : List Voice
  digest : Text
  name : Text
  path : Text

/-- How the document changed. -/
inductive Outcome where
  | unchanged
  | inserted
  | replaced
  | relocated
  deriving Repr, DecidableEq, Inhabited

/-! ## Deleting -/

/-- Deletes what stands at a position, with its lines when nothing else stands on them. -/
def dropAt (b : Buffer) (p : Position) : Except Markup.Fault Buffer :=
  let first := p.startLine - 1
  let last := p.endLine - 1
  let source := Text.slice b.text p.start p.stop
  let rows : Text := Text.unlines ((b.lines.take (last + 1)).drop first)
  if Text.trim rows = Text.trim source then
    (b.dropLines? first last).elim (.error .linesMissing) .ok
  else .ok (b.replaceSpan p.start p.stop [])

/-- Deletes nodes, the last one first. -/
def dropNodes (b : Buffer) (nodes : List Node) : Except Markup.Fault Buffer :=
  (nodes.filterMap Node.position).reverse.foldlM dropAt b

/-- The stamps of a tree that have a position. -/
def stamps (tree : Node) : List Node :=
  tree.walk.filter fun node => isStamp node && node.position.isSome

/-- The tree of a buffer that has been edited, or the one it had before. -/
def treeAfter (before after : Buffer) (tree : Node) : Report Node :=
  if before.lines = after.lines then return tree else Tree.parse after.text

/-! ## Inserting -/

/-- The last line of the module statements, or of the front matter when there are none. -/
def anchorLine (nodes : List Node) : Nat :=
  let lastOf (p : Kind → Bool) : Nat :=
    ((nodes.filter (p ·.kind)).getLast?.bind (·.position)).elim 0 (·.endLine)
  let afterModules := lastOf fun | .modules _ => true | _ => false
  if afterModules = 0 then lastOf fun | .frontMatter _ => true | _ => false else afterModules

/-- Whether a module statement imports the component. -/
def importsComponent (nodes : List Node) (name : Text) : Bool :=
  nodes.any fun node => match node.kind with
    | .modules source => imports source name
    | _ => false

/-- Whether a block is narrated or holds narrated blocks. -/
def isContent : Kind → Bool
  | .heading _ | .paragraph | .list _ | .quote | .table | .component .. => true
  | _ => false

/-- The line of the first content, counted from one. -/
def firstContent? (nodes : List Node) : Option Nat :=
  (nodes.find? fun node => isContent node.kind && node.position.isSome).bind
    fun node => node.position.map (·.startLine)

/-- The lines of a narration block. -/
def blockLines (n : Narrated) : List Text := stamp n.digest :: Text.lines (tag n.voices n.name)

/-- Enters a narration block at a line, with blank lines towards the text around it. -/
def enterBlock (b : Buffer) (line : Nat) (block : List Text) : Buffer :=
  let filled (i : Nat) : Bool := b.lines[i]?.any fun t => !Text.allBlank t
  b.splice line 0 ((if 0 < line && filled (line - 1) then [[]] else []) ++ block ++
    (if filled line then [[]] else []))

/-- Inserts a narration block before the first content, or after the imports when asked to or when
there is no content; adds the import when it is missing. -/
def insertBlock (b : Buffer) (tree : Node) (n : Narrated) (afterImports : Bool) : Buffer :=
  let anchor := anchorLine tree.children
  let line := match firstContent? tree.children with
    | some first => if afterImports then anchor else first - 1
    | none => anchor
  if importsComponent tree.children n.name then enterBlock b line (blockLines n)
  else
    let b := b.splice anchor 0 [importStatement n.name n.path]
    enterBlock b (if anchor ≤ line then line + 1 else line) (blockLines n)

/-! ## Replacing -/

/-- An edit: the characters from `start` up to `stop` exchanged for others. -/
structure Edit where
  start : Nat
  stop : Nat
  new : Text
  deriving Repr, DecidableEq, Inhabited

/-- Whether an edit comes after another, by its start and then by its end. -/
def Edit.after (a b : Edit) : Bool := b.start < a.start || (a.start = b.start && b.stop < a.stop)

/-- Widens a span to whole lines with the line feed of the last. -/
def fullLines (t : Text) (start stop : Nat) : Nat × Nat :=
  let first := ((t.take start).reverse.takeWhile (· ≠ '\n')).length
  let rest := t.drop stop
  let tail := (rest.takeWhile (· ≠ '\n')).length
  (min start t.length - first, if tail < rest.length then stop + tail + 1 else t.length)

/-- Deletes the lines of a repeated block, and a blank line that set it off from what follows. -/
def dropRepeated (t : Text) (u : Use) : List Edit :=
  match u.node.position with
  | none => []
  | some p =>
    let start := ((u.stamp?.bind Node.position).map (·.start)).getD p.start
    let (first, last) := fullLines t start p.stop
    let blankBefore := first = 0 || Text.finishesWith (t.take first) ['\n', '\n']
    [⟨first, if blankBefore && (t.drop last).head? = some '\n' then last + 1 else last, []⟩]

/-- The edit that gives a use new voices: in its attribute, or else a new tag. -/
def voicesEdit (n : Narrated) (u : Use) (p : Position) : Edit :=
  match u.voices?.bind (·.span) with
  | some (first, stop) => ⟨first, stop, '\x7b' :: Voice.payload n.voices ++ ['\x7d']⟩
  | none => ⟨p.start, p.stop, tag n.voices n.name⟩

/-- The edit that gives a use a new fingerprint: in its stamp, or else a line before it. -/
def digestEdit (n : Narrated) (u : Use) (p : Position) : Edit :=
  match u.stamp?.bind Node.position with
  | some q => ⟨q.start, q.stop, stamp n.digest⟩
  | none => ⟨p.start, p.start, stamp n.digest ++ ['\n']⟩

/-- The edits that bring the first use up to date and delete all others. -/
def updates (t : Text) (n : Narrated) : List Use → List Edit
  | [] => []
  | u :: others =>
    match u.node.position with
    | none => []
    | some p => [voicesEdit n u p, digestEdit n u p] ++ others.flatMap (dropRepeated t)

/-- Makes edits, the last in the text first. -/
def applyEdits (b : Buffer) (edits : List Edit) : Buffer :=
  (edits.mergeSort fun x y => !y.after x).foldl (fun b e => b.replaceSpan e.start e.stop e.new) b

/-- Exchanges voices and fingerprint where the component stands; adds the import when it is missing. -/
def updateInPlace (b : Buffer) (tree : Node) (n : Narrated) : Report Buffer := do
  let edited := applyEdits b (updates b.text n (uses tree n.name))
  let tree ← Tree.parse edited.text
  if importsComponent tree.children n.name then return edited
  else return edited.splice (anchorLine tree.children) 0 [importStatement n.name n.path]

/-! ## Injection -/

/-- A buffer without its stamps, and its tree. -/
def withoutStamps (b : Buffer) (tree : Node) : Report (Buffer × Node) := do
  let bare ← dropNodes b (stamps tree)
  return (bare, ← treeAfter b bare tree)

/-- Deletes all stamps and inserts a narration block. -/
def insertAfresh (b : Buffer) (tree : Node) (n : Narrated) (afterImports : Bool) : Report Buffer := do
  let (bare, tree) ← withoutStamps b tree
  return insertBlock bare tree n afterImports

/-- Whether there are module statements to search for the name of a component that a document does not
have. -/
def hasModules (document : Text) : Report Bool := do
  let b := Buffer.ofText document
  let (_, tree) ← withoutStamps b (← Tree.parse b.text)
  return tree.children.any fun node => match node.kind with
    | .modules _ => true
    | _ => false

/-- The document with its narration inserted, replaced or relocated, and what was done. -/
def inject (document : Text) (n : Narrated) : Report (Text × Outcome) := do
  let b := Buffer.ofText document
  let tree ← Tree.parse b.text
  let (edited, outcome) ← match placementIn tree n.name with
    | .misplaced => do
      let bare ← dropNodes b ((uses tree n.name).map (·.node))
      let edited ← insertAfresh bare (← treeAfter b bare tree) n true
      pure (edited, Outcome.relocated)
    | .wellPlaced => do pure (← updateInPlace b tree n, Outcome.replaced)
    | .absent => do pure (← insertAfresh b tree n false, Outcome.inserted)
  let text := edited.render
  return (text, if text = document then .unchanged else outcome)

end Narration.Player
