import Narration.Diff.Unified
import Narration.Fingerprint
import Narration.Player.Insertion
import Narration.Spoken
import Narration.Studio
import Narration.Summary

/-!
# Generating narration

A document is read, its text extracted and compared with the recorded narration; when that is out of
date, every voice is synthesized and stored, and the document is written with the new narration.

* `Generate.recorded`, `Generate.withNarration` : the recorded narration, and the document with another;
* `Generate.narrateVoice`, `Generate.narrateAll` : the audio of a document;
* `Generate.previewVoices` : the voices with the addresses that a run would give them;
* `Generate.renew`, `Generate.update` : one document, unless something fails;
* `Generate.document` : one document, whatever happens;
* `Generate.all` : every document of a directory.
-/

namespace Narration.Generate

/-- The narration that a document records. A name that is no text is no component's name. -/
def recorded (s : Settings) (document : Text) : Work (Option NarrationBlock) :=
  match s.componentName with
  | .str name => .ofReport (Player.locate? document name)
  | _ => do
    discard (Work.ofReport (Tree.parse document))
    return none

/-- The document with new narration. Module statements cannot be searched for a name that is no
text. -/
def withNarration (s : Settings) (document : Text) (voices : List Voice) (digest : Text) :
    Work Text := do
  match s.componentName with
  | .str _ => pure ()
  | name =>
    match (Player.hasModules document).outcome with
    | (.ok true, _) => throw (.playerName name.kind.toList)
    | _ => pure ()
  let (t, _) ← .ofReport
    (Player.inject document ⟨voices, digest, s.componentName.text, s.componentImport.text⟩)
  return t

/-- Synthesizes and stores one voice. -/
def narrateVoice (l : Layout) (path rate text : Text) (v : Voice) : Work Voice := do
  let audio ← .synthesize ⟨text, v.id, rate⟩
  let key ← .ofExcept .slug (l.keyFor? path v.id)
  let url ← .ofStore (Store.upload l key audio Store.audioType)
  return { v with url }

/-- Synthesizes and stores every voice. A voice that fails does not stop the later ones; the first
failure counts. -/
def narrateAll (l : Layout) (path rate text : Text) (voices : List Voice) : Work (List Voice) := do
  let results ← voices.mapM fun v => (narrateVoice l path rate text v).attempt
  results.mapM (Work.ofExcept id)

/-- The voices with the addresses that a run would give them. -/
def previewVoices (s : Settings) (l : Layout) (path : Text) : Work (List Voice) :=
  s.voices.mapM fun v => do
    let key ← .ofExcept .slug (l.keyFor? path v.id)
    return { v with url := l.publicUrl key }

/-- Shows how a document would change. -/
def sayPreview (path before after : Text) : Work Unit := do
  .say ("  [dry run] ".toList ++ path)
  (Diff.unified path before after).forM fun line => .say ("    ".toList ++ line)

/-- Shows the extracted text. -/
def sayExtracted (path text digest : Text) : Work Unit := do
  .say ("\n  --- Extracted text for ".toList ++ path ++ " (".toList ++ Text.digits text.length ++
    " chars) ---".toList)
  .say text
  .say ("  --- Hash: ".toList ++ digest ++ " ---\n".toList)

/-- Brings the narration of a document up to date whose text is known. -/
def renew (directory : Text) (s : Settings) (l : Layout) (path content text digest : Text) :
    Work DocumentResult := do
  let existing ← recorded s content
  if !Fingerprint.hasChanged digest existing s.voiceIds then
    .say ("  [skip] ".toList ++ path ++ ": content unchanged".toList)
    return .skipped path ((existing.map (·.voices)).getD []) "Content unchanged"
  if s.dryRun then
    let voices ← previewVoices s l path
    let updated ← withNarration s content voices digest
    sayPreview path content updated
    return ⟨path, .previewed, voices, "Dry run".toList, []⟩
  .say ("  Generating ".toList ++ path ++ " (".toList ++ Text.digits s.voiceIds.length ++
    " voice(s))...".toList)
  let voices ← narrateAll l path s.rate text s.voices
  let updated ← withNarration s content voices digest
  .write directory path updated
  return ⟨path, .generated, voices, [], []⟩

/-- Brings the narration of a document up to date. -/
def update (directory : Text) (s : Settings) (l : Layout) (path : Text) : Work DocumentResult := do
  let content ← .read directory path
  let text ← .ofReport (Spoken.extract content)
  if text.isEmpty then
    .say ("  [skip] ".toList ++ path ++ ": no extractable text".toList)
    return .skipped path [] "No extractable text"
  let digest := Fingerprint.ofText text
  if s.verbose then sayExtracted path text digest
  renew directory s l path content text digest

/-- Brings the narration of a document up to date. A failure is reported and becomes its result; a run
that hangs has none. -/
def document (directory : Text) (s : Settings) (l : Layout) (path : Text) : Work DocumentResult :=
  tryCatch (update directory s l path) fun f => do
    if f.isEndless then throw f
    if !f.isExpected then .warn .unexpectedFailure
    .complain ("  Failed ".toList ++ path ++ ':' :: ' ' :: f.message)
    return .failed path f.message

/-- Brings the narration of every document of a directory up to date, and sums up. -/
def all (directory : Text) (s : Settings) (l : Layout) (ignored : List Text) :
    Work (List DocumentResult) := do
  let documents := Documents.find (← get).files directory s.pattern ignored
  if documents.isEmpty then
    .say ("No documents found matching pattern: ".toList ++ s.pattern)
    return []
  .say ("Found ".toList ++ Text.digits documents.length ++ " document(s)".toList)
  let results ← documents.mapM (document directory s l)
  (Summary.lines results s.verbose).forM .say
  return results

end Narration.Generate
