import Narration.Text.Basic

/-!
# Wildcards

A star stands for any characters, a question mark for one, and brackets for one of a set. Slashes and
points are ordinary characters.

* `Wildcard.Piece` : what a part of a pattern stands for;
* `Wildcard.set` : the meaning of what stands in brackets;
* `Wildcard.pieces` : the parts of a pattern;
* `Wildcard.accepts` : whether a pattern stands for a text.
-/

namespace Narration.Wildcard

/-- What a part of a pattern stands for. -/
inductive Piece where
  | many
  | one
  | char (c : Char)
  | among (ranges : List (Char × Char))
  | notAmong (ranges : List (Char × Char))
  deriving Repr, DecidableEq, Inhabited

/-- Whether a part stands for one character. -/
def Piece.admits (p : Piece) (c : Char) : Bool :=
  match p with
  | many | one => true
  | char d => c == d
  | among ranges => ranges.any fun (a, b) => a ≤ c && c ≤ b
  | notAmong ranges => !ranges.any fun (a, b) => a ≤ c && c ≤ b

/-! ## Sets -/

/-- Cuts at the hyphens that make ranges. The first `skip` characters cannot be such a hyphen: a range
needs a character before its hyphen that no range ends with. -/
def cutRanges : (skip : Nat) → Text → List Text
  | _, [] => [[]]
  | 0, '-' :: t => [] :: cutRanges 2 t
  | skip, c :: t =>
    match cutRanges (skip - 1) t with
    | chunk :: rest => (c :: chunk) :: rest
    | [] => [[c]]

/-- A hyphen at the end makes no range but stands for itself. -/
def mendLast : List Text → List Text
  | [chunk, []] => [chunk ++ ['-']]
  | chunk :: rest => chunk :: mendLast rest
  | [] => []

/-- Takes out the ranges that run backwards, with both their ends, the last first. -/
def dropBackward : List Text → List Text
  | [] => []
  | chunk :: rest =>
    match chunk.getLast?, dropBackward rest with
    | some a, (b :: next) :: rest =>
      if b < a then (chunk.dropLast ++ next) :: rest else chunk :: (b :: next) :: rest
    | _, rest => chunk :: rest

/-- The characters and ranges of a set cut at its hyphens. -/
def ranges : List Text → List (Char × Char)
  | [] => []
  | [chunk] => chunk.map fun c => (c, c)
  | chunk :: next :: rest =>
    (chunk.dropLast.map fun c => (c, c)) ++
      (match chunk.getLast?, next.head? with
        | some a, some b => [(a, b)]
        | _, _ => []) ++ ranges (next.drop 1 :: rest)
  termination_by chunks => chunks.length

/-- What a set stands for: nothing at all when it is empty; anything else than its members when it
starts with an exclamation mark. -/
def set (t : Text) : Piece :=
  let skip := if t.head? = some '!' then 2 else 1
  let chunks := dropBackward (mendLast (cutRanges skip t))
  match chunks with
  | ('!' :: chunk) :: rest =>
    if chunk.isEmpty && rest.isEmpty then .one else .notAmong (ranges (chunk :: rest))
  | _ => .among (ranges chunks)

/-- What stands between brackets, the opening one passed already; a bracket directly at the start
belongs to the set. Also how many characters that takes, with the closing bracket. -/
def bracketed? (t : Text) : Option (Text × Nat) :=
  let first := if t.head? = some '!' then 1 else 0
  let first := if t[first]? = some ']' then first + 1 else first
  match Text.find? (t.drop first) [']'] with
  | some i => some (t.take (first + i), first + i + 1)
  | none => none

/-! ## Patterns -/

/-- The parts of a pattern of which the first `skip` characters belong to a set; stars in a row count
as one. -/
def piecesFrom : (skip : Nat) → Text → List Piece
  | _, [] => []
  | skip + 1, _ :: t => piecesFrom skip t
  | 0, c :: t =>
    if c = '*' then
      match piecesFrom 0 t with
      | .many :: rest => .many :: rest
      | rest => .many :: rest
    else if c = '?' then .one :: piecesFrom 0 t
    else if c = '[' then
      match bracketed? t with
      | some (inside, length) => set inside :: piecesFrom length t
      | none => .char '[' :: piecesFrom 0 t
    else .char c :: piecesFrom 0 t

/-- The parts of a pattern. -/
def pieces (pattern : Text) : List Piece := piecesFrom 0 pattern

/-- A text and its ends, the longest first. -/
def ends : Text → List Text
  | [] => [[]]
  | c :: t => (c :: t) :: ends t

/-- What may be left of a text after one more part, `left` being what may be left before it, the
longest first. -/
def advance (left : List Text) (p : Piece) : List Text :=
  match p with
  | .many => match left with
    | [] => []
    | t :: _ => ends t
  | p => left.filterMap fun
    | [] => none
    | c :: t => if p.admits c then some t else none

/-- Whether a pattern stands for a text. -/
def accepts (pattern t : Text) : Bool := ((pieces pattern).foldl advance [t]).any List.isEmpty

end Narration.Wildcard
