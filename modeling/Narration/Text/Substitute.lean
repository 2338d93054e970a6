import Narration.Text.Basic

/-!
# Substitution

* `Text.Pattern` : what a pattern finds at the front of a text: a length and a replacement;
* `Text.substitute` : the matches of a pattern replaced, from the left, without overlaps.
-/

namespace Narration.Text

/-- What a pattern finds at the front of a text: how many characters, and what replaces them. -/
abbrev Pattern := Text → Option (Nat × Text)

/-- Replaces matches; the first `skip` characters belong to the last match. -/
def substituteFrom (p : Pattern) : (skip : Nat) → Text → Text
  | _, [] => []
  | skip + 1, _ :: t => substituteFrom p skip t
  | 0, c :: t =>
    match p (c :: t) with
    | some (length, new) => new ++ substituteFrom p (length - 1) t
    | none => c :: substituteFrom p 0 t

/-- The matches of a pattern replaced, from the left. Matches are not empty. -/
def substitute (p : Pattern) (t : Text) : Text := substituteFrom p 0 t

end Narration.Text
