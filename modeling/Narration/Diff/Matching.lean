import Narration.Text.Basic

/-!
# Matching lines

Two lists of lines are matched block by block: the longest block that they share, then the same for
what stands before it and what stands after it.

* `Diff.Block` : lines that both lists share;
* `Diff.isPopular` : lines so frequent that no block starts from them;
* `Diff.longest` : the longest shared block;
* `Diff.blocks` : all shared blocks in order.
-/

namespace Narration.Diff

/-- Lines that both lists share: where they start in each, and how many they are. -/
structure Block where
  old : Nat
  new : Nat
  size : Nat
  deriving Repr, DecidableEq, Inhabited

/-- In a list of 200 lines or more, a line that makes up more than one in a hundred of them and one
more is popular. -/
def isPopular (new : List Text) (line : Text) : Bool :=
  200 ≤ new.length && new.length / 100 + 1 < new.count line

/-- For each new line, how many lines up to it are the same as those up to an old line, `before` being
these numbers for the old line before. -/
def runs (popular : Text → Bool) (line : Text) (new : List Text) (before : List Nat) : List Nat :=
  if popular line then new.map fun _ => 0
  else List.zipWith (fun n k => if n = line then k + 1 else 0) new (0 :: before)

/-- The first longest of the runs that end at the old line `i`, if it is longer than the best so
far. -/
def better (i : Nat) (best : Block) (lengths : List Nat) : Block :=
  lengths.zipIdx.foldl (fun best (k, j) =>
    if best.size < k then ⟨i + 1 - k, j + 1 - k, k⟩ else best) best

/-- The longest run from the old line `i` on. -/
def longestFrom (popular : Text → Bool) (new : List Text) (best : Block) (before : List Nat)
    (i : Nat) : List Text → Block
  | [] => best
  | line :: old =>
    let lengths := runs popular line new before
    longestFrom popular new (better i best lengths) lengths (i + 1) old

/-- How many lines two lists begin with alike. -/
def common : List Text → List Text → Nat
  | a :: as, b :: bs => if a = b then common as bs + 1 else 0
  | _, _ => 0

/-- The longest shared block, the first of several, extended over popular lines around it. -/
def longest (popular : Text → Bool) (old new : List Text) : Block :=
  let best := longestFrom popular new ⟨0, 0, 0⟩ (new.map fun _ => 0) 0 old
  let before := common (old.take best.old).reverse (new.take best.new).reverse
  let after := common (old.drop (best.old + best.size)) (new.drop (best.new + best.size))
  ⟨best.old - before, best.new - before, before + best.size + after⟩

/-- All shared blocks in order; `fuel` bounds how deep they lie. -/
def blocksFrom (popular : Text → Bool) : (fuel : Nat) → List Text → List Text → List Block
  | 0, _, _ => []
  | fuel + 1, old, new =>
    let b := longest popular old new
    if b.size = 0 then []
    else
      let before :=
        if 0 < b.old ∧ 0 < b.new then blocksFrom popular fuel (old.take b.old) (new.take b.new)
        else []
      let i := b.old + b.size
      let j := b.new + b.size
      let after :=
        if i < old.length ∧ j < new.length then
          (blocksFrom popular fuel (old.drop i) (new.drop j)).map fun c =>
            ⟨c.old + i, c.new + j, c.size⟩
        else []
      before ++ b :: after

/-- Joins blocks that meet in both lists. -/
def joined : List Block → List Block
  | [] => []
  | b :: rest =>
    match joined rest with
    | c :: others =>
      if b.old + b.size = c.old ∧ b.new + b.size = c.new then ⟨b.old, b.new, b.size + c.size⟩ :: others
      else b :: c :: others
    | [] => [b]

/-- All shared blocks in order, none meeting the next. -/
def blocks (old new : List Text) : List Block :=
  joined (blocksFrom (isPopular new) (old.length + 1) old new)

end Narration.Diff
