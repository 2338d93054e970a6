import Narration.Text.Case

/-!
# Punycode

Host names with characters beyond ASCII are written as their ASCII characters followed by numbers
that say where the others go (the Bootstring method with the parameters for host names).

* `Punycode.encode`, `Punycode.decode?` : one label;
* `Punycode.mapDomain` : a function on the labels of a host name;
* `Punycode.toAscii`, `Punycode.toUnicode?` : whole host names.
-/

namespace Narration.Punycode

/-- The threshold of the digit at place `j`. -/
def threshold (j bias : Nat) : Nat := min 26 (max 1 (36 * (j + 1) - bias))

/-- A digit of base 36. -/
def digit (n : Nat) : Char := if n < 26 then Char.ofNat (0x61 + n) else Char.ofNat (0x16 + n)

/-- The value of a digit of base 36 in either case. -/
def value? (c : Char) : Option Nat :=
  if 'a' ≤ c ∧ c ≤ 'z' then some (c.toNat - 0x61)
  else if 'A' ≤ c ∧ c ≤ 'Z' then some (c.toNat - 0x41)
  else if '0' ≤ c ∧ c ≤ '9' then some (c.toNat - 0x16)
  else none

/-- Divides by 35 while above 455; answers the rest and 36 for each division. -/
def scaleDown : (fuel : Nat) → (divisions delta : Nat) → Nat × Nat
  | 0, divisions, delta => (divisions, delta)
  | fuel + 1, divisions, delta =>
    if delta > 455 then scaleDown fuel (divisions + 36) (delta / 35) else (divisions, delta)

/-- The bias after a number has been coded. -/
def adapt (delta : Nat) (first : Bool) (points : Nat) : Nat :=
  let delta := if first then delta / 700 else delta / 2
  let (divisions, delta) := scaleDown (delta + 1) 0 (delta + delta / points)
  divisions + 36 * delta / (delta + 38)

/-- A number in variable thresholds. -/
def number : (fuel : Nat) → (j n bias : Nat) → Text
  | 0, _, _, _ => []
  | fuel + 1, j, n, bias =>
    let t := threshold j bias
    if n < t then [digit n]
    else digit (t + (n - t) % (36 - t)) :: number fuel (j + 1) ((n - t) / (36 - t)) bias

/-- One pass over the label for the code point `code`: `delta` states have passed since the last
insertion and `count` characters are placed. The numbers written so far are reversed. -/
structure Writer where
  delta : Nat
  count : Nat
  bias : Nat
  first : Bool
  output : Text

/-- Visits one character of the label. -/
def Writer.visit (code : Nat) (w : Writer) (c : Char) : Writer :=
  if c.toNat < code then { w with delta := w.delta + 1 }
  else if c.toNat = code then
    { delta := 0
      count := w.count + 1
      bias := adapt w.delta w.first (w.count + 1)
      first := false
      output := w.output ++ number (w.delta + 1) 0 w.delta w.bias }
  else w

/-- The numbers for the code points in increasing order, the last one coded being `last`. -/
def insertions (label : Text) : (codes : List Nat) → (last : Nat) → Writer → Text
  | [], _, w => w.output
  | code :: codes, last, w =>
    let w := { w with delta := w.delta + (code - last) * (w.count + 1) }
    let w := label.foldl (Writer.visit code) w
    insertions label codes (code + 1) { w with delta := w.delta + 1 }

/-- A label with characters beyond ASCII, in ASCII. -/
def encode (label : Text) : Text :=
  let basic := label.filter (·.toNat < 0x80)
  let codes := ((label.filter (0x80 ≤ ·.toNat)).map Char.toNat).eraseDups.mergeSort
  (if basic.isEmpty then [] else basic ++ ['-']) ++
    insertions label codes 0x80 ⟨0, basic.length, 72, true, []⟩

/-- Reads a number; answers it with what follows. -/
def readNumber? (bias : Nat) : (j weight sum : Nat) → Text → Option (Nat × Text)
  | _, _, _, [] => none
  | j, weight, sum, c :: t => do
    let d ← value? c
    let limit := threshold j bias
    let sum := sum + d * weight
    if d < limit then some (sum, t) else readNumber? bias (j + 1) (weight * (36 - limit)) sum t

/-- Inserts the coded characters one by one. -/
def insertAll? : (fuel : Nat) → (label : Text) → (code place bias : Nat) → (first : Bool) → Text →
    Option Text
  | _, label, _, _, _, _, [] => some label
  | 0, _, _, _, _, _, _ :: _ => none
  | fuel + 1, label, code, place, bias, first, c :: t => do
    let (delta, rest) ← readNumber? bias 0 1 0 (c :: t)
    let place := place + delta
    let code := code + place / (label.length + 1)
    if code > 0x10FFFF then none
    else
      let place := place % (label.length + 1)
      let label := label.take place ++ Char.ofNat code :: label.drop place
      insertAll? fuel label code (place + 1) (adapt delta first label.length) false rest

/-- The label that an ASCII label stands for. -/
def decode? (t : Text) : Option Text :=
  if t.any (0x80 ≤ ·.toNat) then none
  else
    let (basic, extended) := (Text.cutLast? '-' t).getD ([], t)
    insertAll? (extended.length + 1) basic 0x80 0 72 true extended

/-- The full stops at which a host name is cut into labels. -/
def isSeparator (c : Char) : Bool := [0x2E, 0x3002, 0xFF0E, 0xFF61].contains c.toNat

/-- Applies a function to each label; what stands before an at sign is kept. -/
def mapDomain (f : Text → Option Text) (host : Text) : Option Text := do
  let (user, host) := match Text.splitOn '@' host with
    | user :: domain :: _ => (user ++ ['@'], domain)
    | _ => ([], host)
  let labels ← (Text.splitOn '.' (host.map fun c => if isSeparator c then '.' else c)).mapM f
  return user ++ Text.join ['.'] labels

/-- The mark of a coded label. -/
def mark : Text := ['x', 'n', '-', '-']

/-- The host name in ASCII. -/
def toAscii (host : Text) : Option Text :=
  mapDomain (fun label => some (if label.any (0x7E < ·.toNat) then mark ++ encode label else label))
    host

/-- The host name with its coded labels read. -/
def toUnicode? (host : Text) : Option Text :=
  mapDomain (fun label : Text => match Text.after? mark label with
    | some code => decode? (Text.lower code)
    | none => some label) host

end Narration.Punycode
