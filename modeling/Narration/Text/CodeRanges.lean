import Narration.Text.Basic

/-!
# Sets of code points

* `CodeRanges` : a set of code points as closed ranges in increasing order;
* `CodeRanges.has` : membership.
-/

namespace Narration.Text

/-- A set of code points, as closed ranges in increasing order. -/
abbrev CodeRanges := List (Nat × Nat)

/-- Whether a code point lies in one of the ranges. -/
def CodeRanges.has (ranges : CodeRanges) (n : Nat) : Bool :=
  ranges.any fun (first, last) => first ≤ n && n ≤ last

end Narration.Text
