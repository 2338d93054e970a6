import Narration.Text.Case
import Narration.Text.Blank

/-!
# Link references

A line `[label]: target` defines a target that links name by their label.

* `Reference.normalize` : labels that differ in case and blanks only become equal;
* `Reference.target?` : the target of a definition after its colon;
* `Reference.definition?` : the definition at the front of a line;
* `Reference.collect` : the definitions of a text, the first of each label.
-/

namespace Narration.Markup

/-- A defined link target. -/
structure Reference where
  label : Text
  target : Text
  deriving Repr, DecidableEq, Inhabited

namespace Reference

/-- A blank of a label: a separator of Unicode, a tab or one of the four controls after it. -/
def isLabelBlank (c : Char) : Bool :=
  Text.isBlank c && !(0x1C ≤ c.toNat && c.toNat ≤ 0x1F) && c.toNat ≠ 0x85

/-- Runs of blanks become one space. -/
def collapse : Text → Text
  | [] => []
  | c :: t =>
    if isLabelBlank c then
      if t.head?.any isLabelBlank then collapse t else ' ' :: collapse t
    else c :: collapse t

/-- The form in which labels are compared: without blanks at the ends, and in one case. -/
def normalize (label : Text) : Text :=
  let bare := Text.dropEndWhile isLabelBlank (label.dropWhile isLabelBlank)
  Text.upper (Text.lower (collapse bare))

/-- A character of a link target in a definition. -/
def isTargetChar (c : Char) : Bool := !Text.isBlank c && c ≠ '>'

/-- The target at the front of a text, in angle brackets or not, and its length with these. -/
def target? (t : Text) : Option (Text × Nat) :=
  let plain := t.takeWhile isTargetChar
  let inner := (t.drop 1).takeWhile isTargetChar
  let (target, skip) := if t.head? = some '<' && !inner.isEmpty then (inner, 1) else (plain, 0)
  if target.isEmpty then none
  else
    let length := skip + target.length
    some (target, if (t.drop length).head? = some '>' then length + 1 else length)

/-- The definition at the start of a line, with its length. A label may run over several lines. -/
def definition? (t : Text) : Option (Text × Text × Nat) := do
  let spaces := ((t.take 3).takeWhile (· = ' ')).length
  let rest ← Text.after? ['['] (t.drop spaces)
  let label := rest.takeWhile (· ≠ ']')
  if label.isEmpty then none
  else
    let rest ← Text.after? [']', ':'] (rest.drop label.length)
    let gap := (rest.takeWhile Text.isSpaceOrTab).length
    let (target, length) ← target? (rest.drop gap)
    return (label, target, spaces + 1 + label.length + 2 + gap + length)

/-- All definitions in order, as label and target. The first `skip` characters belong to the last
one; `lineStart` tells whether a line starts here. -/
def definitions : (skip : Nat) → (lineStart : Bool) → Text → List (Text × Text)
  | _, _, [] => []
  | skip + 1, _, c :: t => definitions skip (c = '\n') t
  | 0, false, c :: t => definitions 0 (c = '\n') t
  | 0, true, c :: t =>
    match definition? (c :: t) with
    | some (label, target, length) => (label, target) :: definitions (length - 1) (c = '\n') t
    | none => definitions 0 (c = '\n') t

/-- Adds a definition, unless its label is empty or defined already. -/
def add (references : List Reference) (definition : Text × Text) : List Reference :=
  let label := normalize definition.1
  if label.isEmpty || references.any (·.label = label) then references
  else references ++ [⟨label, definition.2⟩]

/-- The definitions that a text makes. -/
def collect (t : Text) : List Reference := (definitions 0 true t).foldl add []

/-- The target of a label. -/
def find? (references : List Reference) (label : Text) : Option Text :=
  let label := normalize label
  (references.find? (·.label = label)).map (·.target)

end Reference
end Narration.Markup
