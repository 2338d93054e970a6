import Narration.Player.Block
import Narration.Studio

/-!
# Reconciling the store with the documents

* `Reconcile.keysBy`, `Reconcile.referencedBy` : the keys that a document and that documents refer to;
* `Reconcile.referenced` : the same with the keys of a layout;
* `Reconcile.orphans` : stored keys that no document refers to;
* `Reconcile.run` : finds the orphans of a directory and deletes them.
-/

namespace Narration.Reconcile

/-- What was found and done. -/
structure Found where
  documents : Nat
  referenced : List Text
  stored : List Text
  orphans : List Text
  deleted : Nat
  deriving Repr, DecidableEq, Inhabited

/-- The keys that a document refers to, when `keyOf` tells the key of an address. A name that is no text
is no component's name. -/
def keysBy (keyOf : Text → Except Failure Text) (componentName : Value) (document : Text) : Work (List Text) := do
  let block ← match componentName with
    | .str name => .ofReport (Player.locate? document name)
    | _ => do
      discard (Work.ofReport (Tree.parse document))
      pure none
  let urls := ((block.map (·.voices)).getD []).map (·.url)
  (urls.filter (!·.isEmpty)).mapM fun url => .ofExcept id (keyOf url)

/-- The keys that documents refer to, each once. The documents are read one after another. -/
def referencedBy (keyOf : Text → Except Failure Text) (componentName : Value) (documents : List (Work Text)) :
    Work (List Text) := do
  let keys ← documents.mapM fun document => do keysBy keyOf componentName (← document)
  return Text.distinct keys.flatten

/-- The key of an address in a layout. -/
def keyOf (l : Layout) (url : Text) : Except Failure Text := (l.keyOfUrl url).mapError .address

/-- The keys in a layout that documents refer to. -/
def referenced (l : Layout) : (componentName : Value) → (documents : List (Work Text)) → Work (List Text) :=
  referencedBy (keyOf l)

/-- The stored keys that no document refers to, each once and in order. -/
def orphans (stored referenced : List Text) : List Text :=
  Text.sorted ((Text.distinct stored).filter (!referenced.contains ·))

/-- Finds the orphans of a directory and deletes them, unless nothing is to be changed. -/
def run (directory : Text) (s : Settings) (l : Layout) (ignored : List Text) : Work Found := do
  let documents := Documents.find (← get).files directory s.pattern ignored
  let referenced ← referenced l s.componentName (documents.map (Work.read directory))
  let stored ← .ofStore (Store.list l l.root)
  let orphans := orphans stored referenced
  let deleted ←
    if orphans.isEmpty || s.dryRun then pure 0 else .ofStore (Store.delete l orphans)
  return ⟨documents.length, referenced, stored, orphans, deleted⟩

end Narration.Reconcile
