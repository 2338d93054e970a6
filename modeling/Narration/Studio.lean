import Narration.Failure
import Narration.Text.Blank

/-!
# The studio

What a run works with: the files, the two services, and what it says.

* `Studio` : the state of a run;
* `Work` : a step of a run, which may fail;
* `Work.say`, `Work.complain`, `Work.warn` : lines of output, of errors, and warnings;
* `Work.ofStore`, `Work.ofReport` : steps with the store and with documents;
* `Work.attempt` : a step whose failure is kept;
* `Repository.branch` : the branch of the documents' repository.
-/

namespace Narration

/-- What asking for the branch of a repository gives: a text, or nothing if it cannot be asked. -/
structure Repository where
  answer : Option Text
  deriving Repr, DecidableEq, Inhabited

/-- The branch when a repository tells none. -/
def Repository.defaultBranch : Text := "main".toList

/-- The name of the branch that is checked out. -/
def Repository.branch (r : Repository) : Text :=
  let name := Text.trim (r.answer.getD [])
  if name.isEmpty || name = "HEAD".toList then defaultBranch else name

/-- What a run works with. -/
structure Studio where
  files : Files
  store : Store
  speech : Speech
  repository : Repository
  environment : Environment
  output : Text
  errors : Text
  warnings : List Warning

/-- A step of a run. What was done before a failure stays done. -/
abbrev Work (α : Type) := ExceptT Failure (StateM Studio) α

namespace Work

/-- A line of output. -/
def say (line : Text) : Work Unit := modify fun s => { s with output := s.output ++ line ++ ['\n'] }

/-- A line of errors. -/
def complain (line : Text) : Work Unit :=
  modify fun s => { s with errors := s.errors ++ line ++ ['\n'] }

def warn (w : Warning) : Work Unit := modify fun s => { s with warnings := s.warnings ++ [w] }

/-- A result whose failure is a failure of the run. -/
def ofExcept {ε α : Type} (wrap : ε → Failure) : Except ε α → Work α
  | .ok a => return a
  | .error e => throw (wrap e)

/-- A step with the store. -/
def ofStore {α : Type} (action : Store.Action α) : Work α := do
  let (result, store) := action.run.run (← get).store
  modify fun s => { s with store }
  ofExcept .store result

/-- A step with a document. -/
def ofReport {α : Type} (report : Report α) : Work α := do
  let (result, warnings) := report.outcome
  modify fun s => { s with warnings := s.warnings ++ warnings }
  ofExcept .markup result

/-- The audio of a text. -/
def synthesize (r : Speech.Request) : Work (List UInt8) := do
  let (result, failed, speech) := (← get).speech.synthesize r
  let warnings := List.replicate failed Warning.synthesisAttemptFailed
  modify fun s => { s with speech, warnings := s.warnings ++ warnings }
  ofExcept .speech result

/-- The result of a step, or the failure that it ended with. -/
def attempt {α : Type} (w : Work α) : Work (Except Failure α) :=
  tryCatch (Except.ok <$> w) fun f => return .error f

/-- The text of a document. -/
def read (directory path : Text) : Work Text := do
  ofExcept .document (Documents.read (← get).files directory path)

/-- Writes the text of a document. -/
def write (directory path t : Text) : Work Unit := do
  let files ← ofExcept .document (Documents.write (← get).files directory path t)
  modify fun s => { s with files }

end Work
end Narration
