import Narration.Entity
import Narration.Text.Blank
import Narration.Text.Case
import Narration.Text.Digit
import Narration.Number.Binary64
import Narration.Yaml.Fault

/-!
# Numbers of YAML

Integers are decimal, or binary, octal or hexadecimal with a leading zero, or groups of base sixty
with colons between them; so are decimal fractions. Underscores between digits are ignored.

* `Numeral.isInteger`, `Numeral.isDecimal` : whether a text without a tag is such a number;
* `Numeral.integer`, `Numeral.decimal` : the number of a text that is tagged as one.
-/

namespace Narration.Yaml.Numeral

/-- The text without a sign. -/
def unsigned : Text → Text
  | '+' :: t => t
  | '-' :: t => t
  | t => t

/-- A character of a number that starts with a digit. -/
def isPlace (c : Char) : Bool := c.isDigit || c == '_'

/-- A digit and then digits and underscores. -/
def isWhole : Text → Bool
  | [] => false
  | c :: t => c.isDigit && t.all isPlace

/-- A group of base sixty. -/
def isSixty : Text → Bool
  | [d] => d.isDigit
  | [d, e] => '0' ≤ d && d ≤ '5' && e.isDigit
  | _ => false

/-- Whether a text of characters of one class is not empty. -/
def isRun (p : Char → Bool) (t : Text) : Bool := !t.isEmpty && t.all p

/-- An integer without a tag. -/
def isInteger (t : Text) : Bool :=
  let t := unsigned t
  match t with
  | ['0'] => true
  | '0' :: 'b' :: t => isRun (fun c => c == '0' || c == '1' || c == '_') t
  | '0' :: 'x' :: t => isRun (fun c => c.isDigit || ('a' ≤ c && c ≤ 'f') || ('A' ≤ c && c ≤ 'F') || c == '_') t
  | '0' :: t => isRun (fun c => ('0' ≤ c && c ≤ '7') || c == '_') t
  | _ =>
    match Text.splitOn ':' t with
    | whole :: groups => isWhole whole && groups.all isSixty
    | [] => false

/-- An exponent with its sign, or nothing. -/
def isExponent : Text → Bool
  | [] => true
  | e :: sign :: t => (e == 'e' || e == 'E') && (sign == '+' || sign == '-') && isRun Char.isDigit t
  | _ => false

/-- The digits after a point and perhaps an exponent. -/
def isFraction (t : Text) : Bool := isExponent (t.dropWhile isPlace)

/-- A decimal fraction without a tag. -/
def isDecimal (t : Text) : Bool :=
  let body := unsigned t
  if [".inf", ".Inf", ".INF"].any (·.toList = body) then true
  else if [".nan", ".NaN", ".NAN"].any (·.toList = t) then true
  else
    match Text.cut? '.' body with
    | none => false
    | some ([], fraction) =>
      body.length = t.length && fraction.head?.any Char.isDigit && isFraction fraction
    | some (whole, fraction) =>
      match Text.splitOn ':' whole with
      | [whole] => isWhole whole && isFraction fraction
      | whole :: groups => isWhole whole && groups.all isSixty && fraction.all isPlace
      | [] => false

/-- The value of a digit, letters standing for ten and more. -/
def digit? (c : Char) : Option Nat := (Text.digitValue? c).or (Entity.hexValue? c)

/-- The number written in some base. -/
def natOf? (base : Nat) (t : Text) : Option Nat :=
  if t.isEmpty then none
  else t.foldl (fun n? c => do
    let n ← n?
    let d ← digit? c
    if d < base then some (base * n + d) else none) (some 0)

/-- The letter that may follow a zero in front of digits of a base. -/
def mark? : Nat → Option Char
  | 2 => some 'b'
  | 8 => some 'o'
  | 16 => some 'x'
  | _ => none

/-- Drops a zero and the letter of the base. -/
def unmarked (base : Nat) (t : Text) : Text :=
  match t with
  | '0' :: c :: rest => if mark? base = some c || mark? base = some (c.toLower) then rest else t
  | _ => t

/-- How many digits a decimal integer may have. -/
def maxDigits : Nat := 4300

/-- The integer written in some base, a sign in front and blanks around it. -/
def integerIn (base : Nat) (t : Text) : Except Fault Int :=
  let body := Text.trim t
  let digits := unmarked base (unsigned body)
  match natOf? base digits with
  | none => .error (.badInteger base t)
  | some n =>
    if base = 10 ∧ maxDigits < digits.length then .error (.tooManyDigits digits.length)
    else .ok (if body.head? = some '-' then -(n : Int) else n)

/-- Groups of base sixty, the highest first. -/
def integerOfGroups (groups : List Text) : Except Fault Int :=
  groups.foldlM (fun n group => return 60 * n + (← integerIn 10 group)) 0

/-- The integer of a text. -/
def integer (t : Text) : Except Fault Int := do
  let t := t.filter (· ≠ '_')
  let sign : Int := if t.head? = some '-' then -1 else 1
  if t.isEmpty then throw .emptyNumber
  match unsigned t with
  | [] => throw .emptyNumber
  | ['0'] => return 0
  | '0' :: 'b' :: t => return sign * (← integerIn 2 t)
  | '0' :: 'x' :: t => return sign * (← integerIn 16 t)
  | '0' :: t => return sign * (← integerIn 8 ('0' :: t))
  | t => return sign * (← if t.contains ':' then integerOfGroups (Text.splitOn ':' t) else integerIn 10 t)

/-- A run of digits and its value, and the rest. -/
def digits (t : Text) : Text × Text := t.span Text.isDigit

/-- The exponent of a decimal number, which ends there. -/
def exponent? : Text → Option Int
  | [] => some 0
  | c :: t =>
    if c ≠ 'e' ∧ c ≠ 'E' then none
    else (Text.decimal? (unsigned t)).map fun n => if t.head? = some '-' then -(n : Int) else n

/-- The nearest number to a decimal, a sign in front and blanks around it. -/
def decimalOf (t : Text) : Except Fault Binary64 :=
  let body := Text.trim t
  let negative := body.head? = some '-'
  let body := unsigned body
  let word := Text.lower body
  if word = "inf".toList ∨ word = "infinity".toList then .ok (.infinite negative)
  else if word = "nan".toList then .ok .nan
  else
    let (whole, rest) := digits body
    let (fraction, rest) := match rest with
      | '.' :: rest => digits rest
      | rest => ([], rest)
    match Text.decimal? (whole ++ fraction), exponent? rest with
    | some n, some e => .ok (.ofDecimal negative n (e - fraction.length))
    | _, _ => .error (.badDecimal t)

/-- Groups of base sixty, the lowest first, `base` being the weight of the first. -/
def decimalOfGroups (sum : Binary64) (base : Nat) : List Text → Except Fault Binary64
  | [] => .ok sum
  | group :: groups => do
    let x ← decimalOf group
    decimalOfGroups (sum.add (x.mul (Binary64.ofInt base))) (60 * base) groups

/-- The number of a text. -/
def decimal (t : Text) : Except Fault Binary64 := do
  let t := Text.lower (t.filter (· ≠ '_'))
  if t.isEmpty then throw .emptyNumber
  let negative := t.head? = some '-'
  let body := unsigned t
  let x ←
    if body = ".inf".toList then pure (.infinite false)
    else if body = ".nan".toList then pure .nan
    else if body.contains ':' then do
      -- Every group is read, the highest first, before they are added up.
      let groups := Text.splitOn ':' body
      groups.forM fun group => discard (decimalOf group)
      decimalOfGroups Binary64.zero 1 groups.reverse
    else decimalOf body
  return if negative then x.negate else x

end Narration.Yaml.Numeral
