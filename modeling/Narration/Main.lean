import Narration.Command.Run

/-!
# The command line

Reads the files below the working directory, runs a command on them, and writes back what it changed.
There is no connection to a service of speech or to a store here, so requests to them are refused.
-/

namespace Narration

/-- The variables that a run looks at. -/
def Environment.names : List String :=
  ["SPEAK_VOICES", "SPEAK_VOICE_NAMES", "S3_BUCKET", "S3_REGION", "S3_ENDPOINT", "S3_ACCESS_KEY_ID",
    "S3_SECRET_ACCESS_KEY", "S3_PUBLIC_URL"]

/-- The variables that are set. -/
def Environment.current : IO Environment :=
  Environment.names.filterMapM fun name => do
    return (← IO.getEnv name).map fun value => (name.toList, value.toList)

/-- A speech service out of reach. -/
def Speech.unreachable : Speech :=
  .ofAnswers fun _ _ => .refused "no speech service is connected".toList

/-- A store out of reach. -/
def Store.unreachable : Store :=
  let trouble := some (Trouble.refused .unspecified)
  { Store.ofKeys [] with behaviour := ⟨fun _ => trouble, fun _ => trouble, fun _ _ => trouble, fun _ _ => none⟩ }

/-- The entries below a directory, `place` being the segments of its path. -/
partial def Files.below (place : List Text) : IO (List (List Text × Entry)) := do
  let here ← IO.FS.realPath (String.ofList (Text.join ['/'] (['.'] :: place)))
  let entries ← (← here.readDir).toList.mapM fun entry => do
    let path := place ++ [entry.fileName.toList]
    if ← entry.path.isDir then
      return (path, Entry.directory) :: (← Files.below path)
    else
      try return [(path, .file (← IO.FS.readBinFile entry.path).toList)]
      catch _ => return []
  return entries.flatten

/-- Writes the files that a run changed. -/
def Files.writeChanges (before after : Files) : IO Unit :=
  after.entries.forM fun (path, entry) =>
    match entry with
    | .directory => pure ()
    | .file content => do
      if before.entries.lookup path != some entry then
        IO.FS.writeBinFile (String.ofList (Text.join ['/'] path)) ⟨content.toArray⟩

/-- What the files of a working directory tell of the branch that is checked out. -/
def Repository.ofFiles (f : Files) : Repository :=
  match (f.read ".git/HEAD".toList).toOption.bind fun bytes => (Utf8.decode bytes).toOption with
  | some t => ⟨some ((Text.after? "ref: refs/heads/".toList t).getD [])⟩
  | none => ⟨none⟩

end Narration

open Narration in
/-- Runs what the arguments ask for. -/
def main (args : List String) : IO UInt32 := do
  let files : Files := ⟨← Files.below []⟩
  let studio : Studio := {
    files, store := .unreachable, speech := .unreachable, repository := .ofFiles files
    environment := ← Environment.current, output := [], errors := [], warnings := [] }
  let (ending, after) := Ending.ofWords (args.map String.toList) studio
  Files.writeChanges files after.files
  IO.print (String.ofList after.output)
  IO.eprint (String.ofList after.errors)
  match ending with
  | .code n => return n.toUInt32
  | .failure f =>
    IO.eprintln (String.ofList f.message)
    return 1
