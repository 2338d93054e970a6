import Narration.Markup.Block
import Narration.Report

/-!
# Trees of documents

* `Tree.nestingBudget` : how deep containers may stand inside each other;
* `Tree.read` : the tree of a text whose line ends are line feeds;
* `Tree.plain` : the tree of a text that is one paragraph of plain text;
* `Tree.parse` : the tree of any text.
-/

namespace Narration.Tree
open Markup

/-- The nesting budget of a document. A component takes two of it, a quote or a list item three. -/
def nestingBudget : Nat := 960

/-- The blocks of a document, front matter first. -/
def blocks (scope : Scope) (t : Text) : Except Fault (List Node) := do
  match Block.frontMatter? t with
  | some (source, length) =>
    let rest ← Block.readAll nestingBudget true scope ((⟨0, t⟩ : Stretch).drop length)
    return scope.node (.frontMatter source) 0 length :: rest
  | none => Block.readAll nestingBudget true scope ⟨0, t⟩

/-- The tree of a text whose line ends are line feeds. -/
def read (t : Text) : Except Fault Node := do
  let scope := Scope.ofText t (Reference.collect t)
  return scope.node .root 0 t.length (← blocks scope t)

/-- A text as one paragraph of plain text. -/
def plain (t : Text) : Node :=
  let position := some ((Scope.ofText t []).position 0 t.length)
  .mk .root [.mk .paragraph [.mk (.text t) [] position] position] position

/-- The tree of a text. Its positions address the text with line feeds for line ends. A text that is
nested too deeply is one paragraph. -/
def parse (t : Text) : Report Node := do
  let t := Text.crlfToLf t
  match read t with
  | .ok node => return node
  | .error .nestedTooDeeply =>
    Report.warn .nestedTooDeeplyToRead
    return plain t
  | .error fault => throw fault

end Narration.Tree
