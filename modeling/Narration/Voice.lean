import Narration.Text.Basic

/-!
# Voices

* `Voice` : a speaker, and where the audio in that voice is published;
* `NarrationBlock` : what a document records of its narration.
-/

namespace Narration

/-- A speaker: the service's name for the voice, the name that is shown, and the address of the audio,
empty while there is none. -/
structure Voice where
  id : Text
  name : Text
  url : Text
  deriving Repr, DecidableEq, Inhabited

/-- The narration recorded in a document: the fingerprint of the text that was read, if it is recorded,
and the voices. -/
structure NarrationBlock where
  fingerprint : Option Text
  voices : List Voice
  deriving Repr, DecidableEq, Inhabited

def NarrationBlock.voiceIds (b : NarrationBlock) : List Text := b.voices.map (·.id)

end Narration
