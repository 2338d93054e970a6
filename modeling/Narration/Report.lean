import Narration.Markup.Fault

/-!
# Reports

An operation may give up with a fault, and either way it may have warned of things it could pass
over.

* `Warning` : what is warned of;
* `Report` : a computation that warns and may fail.
-/

namespace Narration

/-- What an operation passes over with a warning. -/
inductive Warning where
  | nestedTooDeeplyToRead
  | nestedTooDeeplyToFlatten
  | malformedPayload
  | payloadNotList
  | malformedVoice
  | malformedSettingsFile
  | settingsFileNotMapping
  | synthesisAttemptFailed
  | unexpectedFailure
  deriving Repr, DecidableEq, Inhabited

/-- A computation that may fail and warns on the way. -/
abbrev Report (α : Type) := ExceptT Markup.Fault (StateM (List Warning)) α

namespace Report

/-- Warns and goes on. -/
def warn (w : Warning) : Report Unit := modify (· ++ [w])

/-- The result, and the warnings in order. -/
def outcome {α : Type} (r : Report α) : Except Markup.Fault α × List Warning := r.run.run []

end Report
end Narration
