import Narration.Entity
import Narration.Markup.Fault
import Narration.Value

/-!
# Reading JSON

Each reader looks at a text from its front and answers what it read with the rest of the text. Beyond
the standard, `NaN` and the infinities are read as numbers.

* `Json.Fault` : why a text cannot be read;
* `Json.string` : the rest of a string after its opening quote;
* `Json.number` : a number;
* `Json.value` : any value;
* `Json.read` : a whole text as one value.
-/

namespace Narration.Json

/-- Why a text cannot be read: it is no JSON, an integer has too many digits, or too many lists and
objects stand inside each other, the innermost being an object or a list. -/
inductive Fault where
  | malformed
  | tooManyDigits (count : Nat)
  | nestedTooDeeply (isObject : Bool)
  deriving Repr, DecidableEq, Inhabited

/-- Blanks between tokens. -/
def isSpace (c : Char) : Bool := c == ' ' || c == '\t' || c == '\n' || c == '\r'

def skipSpace (t : Text) : Text := t.dropWhile isSpace

/-- The character that a letter stands for after a backslash. -/
def escape? : Char → Option Char
  | '"' => some '"'
  | '\\' => some '\\'
  | '/' => some '/'
  | 'b' => some '\x08'
  | 'f' => some '\x0c'
  | 'n' => some '\n'
  | 'r' => some '\r'
  | 't' => some '\t'
  | _ => none

/-- The number that four hexadecimal digits write. -/
def unit? (a b c d : Char) : Option Nat := Entity.number? 16 4 [a, b, c, d]

/-- The character of a code unit; half of a pair stands for the replacement character. -/
def ofUnit (n : Nat) : Char := if 0xD800 ≤ n ∧ n < 0xE000 then Char.ofNat 0xFFFD else Char.ofNat n

/-- The code unit escaped at the front of a text. -/
def unitAt? : Text → Option Nat
  | '\\' :: 'u' :: a :: b :: c :: d :: _ => unit? a b c d
  | _ => none

/-- The character that the escape at the front of a text stands for, and the length of the escape. A
pair of code units stands for one character. -/
def escaped? (t : Text) : Option (Char × Nat) :=
  match unitAt? t with
  | some high =>
    match unitAt? (t.drop 6) with
    | some low =>
      if 0xD800 ≤ high ∧ high < 0xDC00 ∧ 0xDC00 ≤ low ∧ low < 0xE000 then
        some (Char.ofNat (0x10000 + (high - 0xD800) * 0x400 + (low - 0xDC00)), 12)
      else some (ofUnit high, 6)
    | none => some (ofUnit high, 6)
  | none =>
    match t with
    | '\\' :: c :: _ => (escape? c).map (·, 2)
    | _ => none

/-- The rest of a string after its opening quote. The first `skip` characters belong to an escape that
was read. -/
def string : (skip : Nat) → Text → Except Fault (Text × Text)
  | _, [] => .error .malformed
  | skip + 1, _ :: t => string skip t
  | 0, c :: t =>
    if c = '"' then .ok ([], t)
    else if c = '\\' then
      match escaped? (c :: t) with
      | some (value, length) => (string (length - 1) t).map fun (s, rest) => (value :: s, rest)
      | none => .error .malformed
    else if c.toNat < 0x20 then .error .malformed
    else (string 0 t).map fun (s, rest) => (c :: s, rest)

/-- The digits at the front of a text, and the rest. -/
def digits (t : Text) : Text × Text := t.span Char.isDigit

/-- The value of decimal digits of ASCII. -/
def natOf (t : Text) : Nat := t.foldl (fun n c => 10 * n + (c.toNat - 0x30)) 0

/-- A fraction at the front of a text: its digits, and the rest. -/
def fraction (t : Text) : Text × Text :=
  match t with
  | '.' :: rest => if (digits rest).1.isEmpty then ([], t) else digits rest
  | _ => ([], t)

/-- An exponent at the front of a text, if there is one, and the rest. -/
def exponent (t : Text) : Option Int × Text :=
  match t with
  | e :: rest =>
    if e = 'e' ∨ e = 'E' then
      let (negative, rest) := match rest with
        | '-' :: r => (true, r)
        | '+' :: r => (false, r)
        | r => (false, r)
      let (places, rest) := digits rest
      if places.isEmpty then (none, t)
      else (some (if negative then -(natOf places : Int) else natOf places), rest)
    else (none, t)
  | [] => (none, t)

/-- How many digits an integer may have. -/
def maxDigits : Nat := 4300

/-- A number at the front of a text. Whole numbers without an exponent are integers. -/
def number (t : Text) : Except Fault (Value × Text) :=
  let (negative, body) := match t with
    | '-' :: r => (true, r)
    | r => (false, r)
  match body with
  | 'I' :: _ =>
    match Text.after? "Infinity".toList body with
    | some rest => .ok (.float (.infinite negative), rest)
    | none => .error .malformed
  | c :: _ =>
    if !c.isDigit then .error .malformed
    else
      let (whole, rest) := if c = '0' then (['0'], body.drop 1) else digits body
      let (places, afterPlaces) := fraction rest
      let (power?, afterPower) := exponent afterPlaces
      if places.isEmpty && power?.isNone then
        if whole.length > maxDigits then .error (.tooManyDigits whole.length)
        else .ok (.int (if negative then -(natOf whole : Int) else natOf whole), rest)
      else
        let value := Binary64.ofDecimal negative (natOf (whole ++ places))
          (power?.getD 0 - places.length)
        .ok (.float value, afterPower)
  | [] => .error .malformed

/-- A word at the front of a text and the value it stands for. -/
def word? (t : Text) : Option (Value × Text) :=
  [("null", Value.null), ("true", .bool true), ("false", .bool false), ("NaN", .float .nan)].findSome?
    fun (word, value) => (Text.after? word.toList t).map (value, ·)

/-- How many lists and objects may stand inside each other. -/
def maxDepth : Nat := 985

mutual

/-- A value at the front of a text, inside `depth` lists and objects; `fuel` bounds how many steps are
taken. -/
def value : (fuel depth : Nat) → Text → Except Fault (Value × Text)
  | 0, _, _ => .error .malformed
  | fuel + 1, depth, t =>
    match t with
    | '"' :: rest => (string 0 rest).map fun (s, rest) => (.str s, rest)
    | '[' :: rest =>
      if maxDepth ≤ depth then .error (.nestedTooDeeply false)
      else
        match skipSpace rest with
        | ']' :: rest => .ok (.list [], rest)
        | rest => (elements fuel (depth + 1) rest).map fun (vs, rest) => (.list vs, rest)
    | '\x7b' :: rest =>
      if maxDepth ≤ depth then .error (.nestedTooDeeply true)
      else
        match skipSpace rest with
        | '\x7d' :: rest => .ok (.mapping [], rest)
        | rest => (members fuel (depth + 1) [] rest).map fun (es, rest) => (.mapping es, rest)
    | _ =>
      match word? t with
      | some result => .ok result
      | none => number t

/-- The values of a list up to its closing bracket. -/
def elements : (fuel depth : Nat) → Text → Except Fault (List Value × Text)
  | 0, _, _ => .error .malformed
  | fuel + 1, depth, t => do
    let (v, rest) ← value fuel depth t
    match skipSpace rest with
    | ',' :: rest =>
      let (vs, rest) ← elements fuel depth (skipSpace rest)
      return (v :: vs, rest)
    | ']' :: rest => return ([v], rest)
    | _ => .error .malformed

/-- The members of an object up to its closing brace, entered after those read already. -/
def members : (fuel depth : Nat) → (entries : List (Value × Value)) → Text →
    Except Fault (List (Value × Value) × Text)
  | 0, _, _, _ => .error .malformed
  | fuel + 1, depth, entries, t =>
    match t with
    | '"' :: rest => do
      let (key, rest) ← string 0 rest
      match skipSpace rest with
      | ':' :: rest =>
        let (v, rest) ← value fuel depth (skipSpace rest)
        let entries := Value.enter entries (.str key) v
        match skipSpace rest with
        | ',' :: rest => members fuel depth entries (skipSpace rest)
        | '\x7d' :: rest => return (entries, rest)
        | _ => .error .malformed
      | _ => .error .malformed
    | _ => .error .malformed

end

/-- A whole text as one value, blanks around it. -/
def read (t : Text) : Except Fault Value := do
  let (v, rest) ← value (t.length + 1) 0 (skipSpace t)
  if (skipSpace rest).isEmpty then return v else .error .malformed

end Narration.Json
