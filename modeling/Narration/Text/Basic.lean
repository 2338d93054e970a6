/-!
# Text

A text is the list of its code points; offsets and lengths count code points.

* `Text.after?` : what follows a given beginning;
* `Text.find?`, `Text.findLast?` : the first and the last occurrence of a piece;
* `Text.splitOn`, `Text.join` : cutting at a separator and putting together again;
* `Text.replaceAll` : every occurrence of a piece exchanged, from the left;
* `Text.dropEndWhile` : a tail of one class removed;
* `Text.digits` : a number in decimal digits.
-/

namespace Narration

/-- A text, as the list of its code points. -/
abbrev Text := List Char

namespace Text

/-- Whether all characters of a text have a property is decided along the text, never by running
through every character there is. -/
instance (priority := high) decidableForallMem (t : Text) (p : Char → Prop) [DecidablePred p] : Decidable (∀ c ∈ t, p c) :=
  List.decidableBAll p t

/-- The text as a string. -/
def str (t : Text) : String := String.ofList t

/-- What follows `p` at the front of a text. -/
def after? : (p t : Text) → Option Text
  | [], t => some t
  | _ :: _, [] => none
  | a :: p, c :: t => if a = c then after? p t else none

/-- Whether a text begins with `p`. -/
def beginsWith (t p : Text) : Bool := (after? p t).isSome

/-- Whether a text ends with `p`. -/
def finishesWith (t p : Text) : Bool := beginsWith t.reverse p.reverse

/-- `offset` plus the place of the first occurrence of `p`. -/
def findFrom (p : Text) (offset : Nat) : Text → Option Nat
  | [] => if p.isEmpty then some offset else none
  | c :: t => if beginsWith (c :: t) p then some offset else findFrom p (offset + 1) t

/-- The place of the first occurrence of `p`. -/
def find? (t p : Text) : Option Nat := findFrom p 0 t

/-- The place of the last occurrence of a character. -/
def findLast? (t : Text) (c : Char) : Option Nat :=
  (t.reverse.findIdx? (· = c)).map (t.length - 1 - ·)

/-- Whether `p` occurs in a text. -/
def has (t p : Text) : Bool := (find? t p).isSome

/-- The pieces between the occurrences of a character. -/
def splitOn (c : Char) (t : Text) : List Text :=
  t.foldr (fun x pieces =>
    if x = c then [] :: pieces
    else match pieces with
      | [] => [[x]]
      | piece :: rest => (x :: piece) :: rest) [[]]

/-- The pieces with `sep` between them. -/
def join (sep : Text) (pieces : List Text) : Text := sep.intercalate pieces

/-- Cuts at the first occurrence of a character, which is dropped. -/
def cut? (c : Char) (t : Text) : Option (Text × Text) :=
  match t.span (· ≠ c) with
  | (_, []) => none
  | (before, _ :: rest) => some (before, rest)

/-- Cuts at the last occurrence of a character, which is dropped. -/
def cutLast? (c : Char) (t : Text) : Option (Text × Text) :=
  (cut? c t.reverse).map fun (rest, before) => (before.reverse, rest.reverse)

/-- The text with the first `skip` characters ignored and then every occurrence of `old`, from the
left, exchanged for `new`. -/
def replaceFrom (old new : Text) : (skip : Nat) → Text → Text
  | _, [] => []
  | skip + 1, _ :: t => replaceFrom old new skip t
  | 0, c :: t =>
    if beginsWith (c :: t) old then new ++ replaceFrom old new (old.length - 1) t
    else c :: replaceFrom old new 0 t

/-- Every occurrence of `old` exchanged for `new`; an empty `old` occurs before each character and
at the end. -/
def replaceAll (t old new : Text) : Text :=
  if old.isEmpty then t.flatMap (fun c => new ++ [c]) ++ new else replaceFrom old new 0 t

/-- Drops the longest tail whose characters satisfy `p`. -/
def dropEndWhile (p : Char → Bool) (t : Text) : Text := (t.reverse.dropWhile p).reverse

/-- The characters from `first` up to `last`. -/
def slice (t : Text) (first last : Nat) : Text := (t.take last).drop first

/-- A number in decimal digits. -/
def digits (n : Nat) : Text := Nat.toDigits 10 n

/-- The order by code points. -/
def lt (a b : Text) : Bool := decide (a < b)

/-- Sorted by code points; equal texts keep their order. -/
def sorted (ts : List Text) : List Text := ts.mergeSort fun a b => !lt b a

/-- Each text once, at its first place. -/
def distinct (ts : List Text) : List Text := ts.eraseDups

end Text
end Narration
