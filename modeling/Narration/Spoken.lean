import Narration.Markup.Tree
import Narration.Spoken.Cleanup

/-!
# What is read aloud

Prose, lists, quotes and tables are narrated; front matter, modules, components, expressions, code
and raw markup are not.

* `Spoken.inlineText` : the text of inline content;
* `Spoken.blockText` : the text of a block;
* `Spoken.joinBlocks` : blocks with a line between them, or a blank line where the source has one;
* `Spoken.extract` : the narrated text of a document.
-/

namespace Narration.Spoken

mutual

/-- The visible text of inline content. -/
def inlineText : Node → Text
  | .mk kind children _ =>
    match kind with
    | .text value | .inlineCode value => value
    | .lineBreak => ['\n']
    | .emphasis | .strong | .strike | .link _ | .image _ => inlineTexts children
    | _ => []

/-- The visible text of several nodes in a row. -/
def inlineTexts : List Node → Text
  | [] => []
  | node :: nodes => inlineText node ++ inlineTexts nodes

end

/-- The cells of a row with commas between them; a row of empty cells gives nothing. -/
def rowText (row : Node) : Text :=
  let cells := row.children.map fun cell => Text.trim (inlineTexts cell.children)
  if cells.all List.isEmpty then [] else Text.join [',', ' '] cells

/-- The rows of a table, a line each. -/
def tableText (rows : List Node) : Text :=
  Text.unlines ((rows.map rowText).filter (!List.isEmpty ·))

/-- The text of a block, with its position. -/
abbrev Passage := Text × Option Position

/-- Whether a blank line stands between two blocks. -/
def gapBetween (before after : Option Position) : Bool :=
  match before, after with
  | some a, some b => a.endLine + 1 < b.startLine
  | _, _ => false

/-- Passages after another that ends at `before`, each set off from the last. -/
def joinAfter (before : Option Position) : List Passage → Text
  | [] => []
  | (text, position) :: rest =>
    (if gapBetween before position then ['\n', '\n'] else ['\n']) ++ text ++ joinAfter position rest

/-- The passages that are not empty, with a blank line wherever the source has a gap. -/
def joinBlocks (passages : List Passage) : Text :=
  match passages.filter (!·.1.isEmpty) with
  | [] => []
  | (text, position) :: rest => text ++ joinAfter position rest

mutual

/-- The narrated text of a block; `none` when containers stand inside each other beyond the budget.
A list and an item, as well as a quote, take two of it. -/
def blockText : Node → (budget : Nat) → Option Text
  | .mk kind children _, budget =>
    match kind with
    | .heading _ | .paragraph => some (Text.trim (inlineTexts children))
    | .list _ =>
      if budget < 2 then none
      else (passages children (budget - 2)).map fun items =>
        Text.unlines ((items.map (·.1)).filter (!List.isEmpty ·))
    | .listItem | .quote =>
      if budget < 2 then none else (passages children (budget - 2)).map joinBlocks
    | .table => some (tableText children)
    | _ => some []

/-- The narrated texts of several blocks. -/
def passages : List Node → (budget : Nat) → Option (List Passage)
  | [], _ => some []
  | node :: nodes, budget => do
    return (← blockText node budget, node.position) :: (← passages nodes budget)

end

/-- How deep lists and quotes may stand inside each other and still be flattened. -/
def flatteningBudget : Nat := 970

/-- The narrated text of a tree, before it is cleaned up. -/
def flatten? (tree : Node) : Option Text := (passages tree.children flatteningBudget).map joinBlocks

/-- The narrated text of a document. One that is nested too deeply is narrated as it stands. -/
def extract (t : Text) : Report Text := do
  let tree ← Tree.parse t
  match flatten? tree with
  | some text => return cleanUp text
  | none =>
    Report.warn .nestedTooDeeplyToFlatten
    return cleanUp (Text.crlfToLf t)

end Narration.Spoken
