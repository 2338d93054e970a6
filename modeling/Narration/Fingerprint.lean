import Narration.Sha256
import Narration.Voice

/-!
# Fingerprints and changes

* `Fingerprint.ofText` : the fingerprint of a narrated text;
* `Fingerprint.voicesMatch` : whether the recorded voices are the requested ones;
* `Fingerprint.hasChanged` : whether a document has to be narrated again.
-/

namespace Narration.Fingerprint

/-- The fingerprint of a narrated text. -/
def ofText (t : Text) : Text := Sha256.hexDigest t

/-- As many are recorded as requested, and every requested one is recorded. -/
def voicesMatch (recorded requested : List Text) : Bool :=
  recorded.length == requested.length && requested.all recorded.contains

/-- A document is unchanged only when its recorded narration has this fingerprint and exactly the
requested voices. -/
def hasChanged (digest : Text) (block : Option NarrationBlock) (requested : List Text) : Bool :=
  match block with
  | none => true
  | some b => b.fingerprint ≠ some digest || !voicesMatch b.voiceIds requested

end Narration.Fingerprint
