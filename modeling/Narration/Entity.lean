import Narration.Entity.Capital
import Narration.Entity.Small
import Narration.Text.Punctuation

/-!
# Character references

* `Entity.named?` : the characters behind a name;
* `Entity.isAllowed` : the code points that a numeric reference may stand for;
* `Entity.number?` : a number in ASCII digits;
* `Entity.reference?` : a reference at the front of a text, with its length;
* `Entity.unescape` : backslash escapes and references replaced by what they stand for.
-/

namespace Narration.Entity

/-- The characters that a name stands for. -/
def named? : Text → Option Text
  | [] => none
  | c :: rest => do
    let group ← (capitalEntities ++ smallEntities).lookup c
    let codes ← group.lookup (String.ofList rest)
    return codes.map Char.ofNat

/-- Code points that are no controls (save the blanks), no surrogates and no noncharacters. -/
def isAllowed (n : Nat) : Bool :=
  !((0xD800 ≤ n && n ≤ 0xDFFF) || (0xFDD0 ≤ n && n ≤ 0xFDEF) || n % 0x10000 ≥ 0xFFFE ||
    n ≤ 0x08 || n == 0x0B || (0x0E ≤ n && n ≤ 0x1F) || (0x7F ≤ n && n ≤ 0x9F) || n > 0x10FFFF)

/-- The value of a hexadecimal digit of ASCII. -/
def hexValue? (c : Char) : Option Nat :=
  if '0' ≤ c ∧ c ≤ '9' then some (c.toNat - 0x30)
  else if 'a' ≤ c ∧ c ≤ 'f' then some (c.toNat - 0x57)
  else if 'A' ≤ c ∧ c ≤ 'F' then some (c.toNat - 0x37)
  else none

def isHexDigit (c : Char) : Bool := (hexValue? c).isSome

/-- A number of one to `limit` digits in the given base, all of the text. -/
def number? (base limit : Nat) (t : Text) : Option Nat :=
  if t.isEmpty || t.length > limit then none
  else t.foldl (fun n? c => do
    let n ← n?
    let d ← hexValue? c
    if d < base then some (base * n + d) else none) (some 0)

/-- A numeric reference, given by what stands between the number sign and the semicolon, with the
most digits it may have. -/
def numeric? (decimalLimit hexLimit : Nat) : Text → Option Nat
  | 'x' :: t => number? 16 hexLimit t
  | 'X' :: t => number? 16 hexLimit t
  | t => number? 10 decimalLimit t

/-- What stands between an ampersand and the next semicolon, when it is short and alphanumeric after
its first character. -/
def body? : Text → Option Text
  | '&' :: t =>
    let body := (t.take 33).takeWhile (· ≠ ';')
    if (t.drop body.length).head? = some ';' then some body else none
  | _ => none

/-- The reference at the front of a text: the characters it stands for, and its length. Numbers of
code points that are not allowed give the replacement character. -/
def reference? (t : Text) : Option (Text × Nat) := do
  let body ← body? t
  match body with
  | '#' :: number =>
    let n ← numeric? 7 6 number
    return ([if isAllowed n then Char.ofNat n else Char.ofNat 0xFFFD], body.length + 2)
  | name =>
    let value ← named? name
    return (value, body.length + 2)

/-- As `reference?`, but numbers may have eight digits and code points that are not allowed leave the
reference as it is. -/
def lenient? (t : Text) : Option (Text × Nat) := do
  let body ← body? t
  match body with
  | '#' :: number =>
    let n ← numeric? 8 8 number
    if isAllowed n then some ([Char.ofNat n], body.length + 2) else none
  | name =>
    let value ← named? name
    return (value, body.length + 2)

/-- Replaces escapes and references, after the first `skip` characters are dropped. -/
def unescapeFrom : (skip : Nat) → Text → Text
  | _, [] => []
  | skip + 1, _ :: t => unescapeFrom skip t
  | 0, c :: t =>
    if c = '\\' && t.head?.any Text.isAsciiPunctuation then t.take 1 ++ unescapeFrom 1 t
    else match lenient? (c :: t) with
      | some (value, length) => value ++ unescapeFrom (length - 1) t
      | none => c :: unescapeFrom 0 t

/-- Backslash escapes and character references replaced by what they stand for. -/
def unescape (t : Text) : Text := unescapeFrom 0 t

end Narration.Entity
