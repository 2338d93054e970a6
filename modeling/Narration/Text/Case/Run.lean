import Narration.Text.Basic

/-!
# Runs of a case map

Alphabets lie in the code space as blocks, or as alternating pairs of capital and small letters;
within such a run the two forms of a letter differ by a constant.

* `CaseRun` : a block of code points, each or every second, moved by one distance;
* `CaseRun.map?` : the counterpart of a code point under a list of runs.
-/

namespace Narration.Text

/-- Every `stride`-th code point from `first` to `last` moves by `distance`. -/
structure CaseRun where
  first : Nat
  last : Nat
  stride : Nat
  distance : Int

/-- Whether a code point belongs to the run. -/
def CaseRun.covers (r : CaseRun) (n : Nat) : Bool :=
  r.first ≤ n && n ≤ r.last && (n - r.first) % r.stride == 0

/-- The counterpart of a code point, when one of the runs moves it. -/
def CaseRun.map? (runs : List CaseRun) (n : Nat) : Option Char :=
  (runs.find? (·.covers n)).map fun r => Char.ofNat ((n : Int) + r.distance).toNat

end Narration.Text
