import Narration.Command.Line
import Narration.Generate
import Narration.Player.Removal
import Narration.Reconcile

/-!
# Running commands

* `Command.helpText`, `Command.version` : what is printed on request;
* `Command.settings`, `Command.layout` : what a command works with;
* `Command.generate`, `Command.cleanup`, `Command.remove` : the commands;
* `CommandLine.run` : whatever a command line asks for;
* `Ending.ofWords` : a whole run, from the words of a command line.
-/

namespace Narration

/-- How a run ends: with a code, or by a failure that nothing handles. -/
inductive Ending where
  | code (n : Nat)
  | failure (f : Failure)
  deriving Repr, DecidableEq

namespace Command

def version : Text := "0.1.0".toList

/-- How the commands are used. -/
def helpLines : List String := [
  "usage: speak-docs [-h] [--version] \x7bgenerate,cleanup,remove\x7d ...",
  "",
  "Add voice narration to MDX documentation",
  "",
  "positional arguments:",
  "  \x7bgenerate,cleanup,remove\x7d",
  "                        Available commands",
  "    generate            Generate narration for changed documents",
  "    cleanup             Delete unreferenced audio from storage",
  "    remove              Strip narration blocks from documents",
  "",
  "options:",
  "  -h, --help            show this help message and exit",
  "  --version             show program's version number and exit"]

/-- How one command is used. -/
def usage (c : Command) : Text :=
  "usage: ".toList ++ program ++ ' ' :: c.name ++ " [options] [directory]".toList

/-- Ends a command with an error. -/
def refuse (message : Text) : Work Nat := do
  .complain ("Error: ".toList ++ message)
  return 1

/-- Whether a fault of the settings is one of what the user gave. -/
def isUsersFault : Settings.Fault → Bool
  | .namesDoNotPair | .noVoices | .missing _ => true
  | _ => false

/-- The settings of a run, or the user's fault. -/
def settings (directory : Text) (o : Options) (requireVoices requireStore : Bool) :
    Work (Except Settings.Fault Settings) := do
  let studio ← get
  let (stored, warnings) ← .ofExcept .settings (Settings.fromFile studio.files directory)
  warnings.forM .warn
  match Settings.resolve o studio.environment stored requireVoices requireStore with
  | .ok s => return .ok s
  | .error f => if isUsersFault f then return .error f else throw (.settings f)

/-- Where a run keeps audio. -/
def layout (s : Settings) : Work Layout := do
  let branch ←
    if s.branchPaths then do
      let branch := (← get).repository.branch
      .say ("Detected git branch: ".toList ++ branch)
      pure (some branch)
    else pure none
  return Layout.new s.bucket s.publicUrl s.folder branch

/-- The patterns of what is not narrated in a directory. -/
def ignored (directory : Text) : Work (List Text) := do
  .ofExcept .document (Documents.ignored (← get).files directory)

/-- Generates narration for every changed document. -/
def runGenerate (directory : Text) (s : Settings) : Work Nat := do
  let l ← layout s
  if s.dryRun then .say "[DRY RUN] No audio will be generated and no files written.".toList
  let results ← Generate.all directory s l (← ignored directory)
  let failed := Summary.failed results
  if 0 < failed then
    .complain (Text.digits failed ++ " document(s) failed; see messages above.".toList)
  return 0

/-- Says what was found in the store. -/
def sayFound (s : Settings) (found : Reconcile.Found) : Work Unit := do
  if found.documents = 0 then
    .say ("No documents found matching pattern: ".toList ++ s.pattern)
  .say ("Found ".toList ++ Text.digits found.referenced.length ++
    " audio file(s) referenced in ".toList ++ Text.digits found.documents ++
    " document(s)".toList)
  .say ("Found ".toList ++ Text.digits found.stored.length ++ " audio file(s) in storage".toList)
  if found.orphans.isEmpty then .say "No orphaned files found.".toList
  else
    .say ("\nFound ".toList ++ Text.digits found.orphans.length ++ " orphaned file(s):".toList)
    found.orphans.forM fun key => .say ("  - ".toList ++ key)
    if s.dryRun then
      .say "\nDry run complete. Run without --dry-run to delete these files.".toList
    else .say ("\nDeleted ".toList ++ Text.digits found.deleted ++ " orphaned file(s)".toList)

/-- Deletes stored audio that no document refers to. -/
def runCleanup (directory : Text) (s : Settings) : Work Nat := do
  let l ← layout s
  let result ← (do Reconcile.run directory s l (← ignored directory) : Work _).attempt
  match result with
  | .ok found =>
    sayFound s found
    return 0
  | .error f => if f.isExpected then refuse f.message else throw f

/-- Takes the narration out of one document, and answers whether there was any. -/
def removeFrom (directory : Text) (s : Settings) (path : Text) : Work Bool := do
  let content ← .read directory path
  let name ← match s.componentName with
    | .str name => pure name
    | value => throw (.playerName value.kind.toList)
  let updated := Player.remove content name
  if updated = content then return false
  if s.dryRun then .say ("  [dry run] would update ".toList ++ path)
  else
    .write directory path updated
    .say ("  Removed narration from ".toList ++ path)
  return true

/-- Takes the narration out of every document. -/
def runRemove (directory : Text) (s : Settings) : Work Nat := do
  let ignored ← ignored directory
  let documents := Documents.find (← get).files directory s.pattern ignored
  let changed ← documents.mapM (removeFrom directory s)
  .say (Text.digits (changed.countP id) ++ " of ".toList ++ Text.digits documents.length ++
    " document(s) ".toList ++ (if s.dryRun then "would change" else "changed").toList)
  return 0

/-- Whether a command needs voices and a store. -/
def requires : Command → Bool × Bool
  | .generate => (true, true)
  | .cleanup => (false, true)
  | .remove => (false, false)

/-- Runs a command for a directory. -/
def run (c : Command) (directory : Text) (o : Options) : Work Nat := do
  if !(← get).files.isDirectory directory then
    refuse ("Directory not found: ".toList ++ directory)
  else
    let (requireVoices, requireStore) := c.requires
    match ← settings directory o requireVoices requireStore with
    | .error f => refuse f.message
    | .ok s =>
      match c with
      | .generate => runGenerate directory s
      | .cleanup => runCleanup directory s
      | .remove => runRemove directory s

end Command

/-- Does what a command line asks for. -/
def CommandLine.run : CommandLine → Work Nat
  | .nothing | .help none => do
    (Command.helpLines.map String.toList).forM .say
    return 0
  | .help (some command) => do
    .say command.usage
    return 0
  | .version => do
    .say (Command.program ++ ' ' :: Command.version)
    return 0
  | .perform command directory options => command.run directory options

/-- Runs what the words of a command line ask for. -/
def Ending.ofWords (words : List Text) (studio : Studio) : Ending × Studio :=
  match CommandLine.read words with
  | .error f => (.code 2, { studio with errors := studio.errors ++ f.message ++ ['\n'] })
  | .ok line =>
    match line.run.run.run studio with
    | (.ok n, studio) => (.code n, studio)
    | (.error f, studio) => (.failure f, studio)

end Narration
