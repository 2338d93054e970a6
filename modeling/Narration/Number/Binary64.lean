import Narration.Text.Basic

/-!
# Numbers in binary floating point

A number of double precision is given by its exact value, so that reading, arithmetic and printing are
arithmetic on naturals.

* `Binary64` : a number with its sign, not a number, or an infinity;
* `Binary64.ofRatio` : the nearest number to a quotient, the even one of two;
* `Binary64.ofDecimal` : the nearest number to a decimal fraction;
* `Binary64.add`, `Binary64.mul` : arithmetic, rounded once;
* `Binary64.shortest` : the fewest decimal digits that read back.
-/

namespace Narration

/-- A number of double precision: `mantissa * 2 ^ exponent`, or no such number. The mantissa is less
than `2 ^ 53`, and at least half of that unless the exponent is the least one, `-1074`. -/
inductive Binary64 where
  | nan
  | infinite (negative : Bool)
  | finite (negative : Bool) (mantissa : Nat) (exponent : Int)
  deriving Repr, DecidableEq, Inhabited

namespace Binary64

def zero : Binary64 := finite false 0 (-1074)

/-- A quotient of naturals, times a power of two, as a quotient of naturals. -/
def scale (num den : Nat) (e : Int) : Nat × Nat :=
  if 0 ≤ e then (num * Nat.pow 2 e.toNat, den) else (num, den * Nat.pow 2 (-e).toNat)

/-- The quotient rounded to a natural, a half going to the even one. -/
def roundHalfEven (num den : Nat) : Nat :=
  let q := num / den
  let twice := 2 * (num % den)
  if den < twice || (twice = den && q % 2 = 1) then q + 1 else q

/-- The exponent at which a positive quotient has 53 binary digits before the point, or the least
exponent. -/
def exponentOf (num den : Nat) : Int :=
  let guess : Int := (num.log2 : Int) - (den.log2 : Int) - 52
  let digitsAt (e : Int) : Nat := let (n, d) := scale num den (-e); n / d
  let e := if digitsAt guess < Nat.pow 2 52 then guess - 1 else guess
  max e (-1074)

/-- The nearest number to a quotient; half-way between two, the one with the even mantissa. -/
def ofRatio (negative : Bool) (num den : Nat) : Binary64 :=
  if num = 0 || den = 0 then finite negative 0 (-1074)
  else
    let e := exponentOf num den
    let (n, d) := scale num den (-e)
    let m := roundHalfEven n d
    let (m, e) := if m = Nat.pow 2 53 then (Nat.pow 2 52, e + 1) else (m, e)
    if 971 < e then infinite negative else finite negative m e

/-- The nearest number to `digits * 10 ^ exponent`. -/
def ofDecimal (negative : Bool) (digits : Nat) (exponent : Int) : Binary64 :=
  let size : Int := exponent + (Nat.toDigits 10 digits).length
  if digits = 0 || size < -400 then finite negative 0 (-1074)
  else if 400 < size then infinite negative
  else if 0 ≤ exponent then ofRatio negative (digits * Nat.pow 10 exponent.toNat) 1
  else ofRatio negative digits (Nat.pow 10 (-exponent).toNat)

def ofInt (n : Int) : Binary64 := ofRatio (n < 0) n.natAbs 1

def isZero : Binary64 → Bool
  | finite _ m _ => m == 0
  | _ => false

def negate : Binary64 → Binary64
  | nan => nan
  | infinite s => infinite (!s)
  | finite s m e => finite (!s) m e

/-- The product, rounded. -/
def mul : Binary64 → Binary64 → Binary64
  | finite s m e, finite s' m' e' =>
    let (n, d) := scale (m * m') 1 (e + e')
    ofRatio (s != s') n d
  | infinite s, infinite s' => infinite (s != s')
  | infinite s, finite s' m _ => if m = 0 then nan else infinite (s != s')
  | finite s m _, infinite s' => if m = 0 then nan else infinite (s != s')
  | nan, _ => nan
  | _, nan => nan

/-- The sum, rounded. -/
def add : Binary64 → Binary64 → Binary64
  | finite s m e, finite s' m' e' =>
    let low := min e e'
    let value (s : Bool) (m : Nat) (e : Int) : Int :=
      let n : Int := m * Nat.pow 2 (e - low).toNat
      if s then -n else n
    let sum := value s m e + value s' m' e'
    let (n, d) := scale sum.natAbs 1 low
    ofRatio (if sum = 0 then s && s' else sum < 0) n d
  | infinite s, infinite s' => if s = s' then infinite s else nan
  | infinite s, finite _ _ _ => infinite s
  | finite _ _ _, infinite s => infinite s
  | nan, _ => nan
  | _, nan => nan

/-- Whether the number is the integer `n`. -/
def isInt (x : Binary64) (n : Int) : Bool :=
  match x with
  | finite s m e =>
    let (num, den) := scale m 1 e
    num % den == 0 && (if s then -((num / den : Nat) : Int) else ((num / den : Nat) : Int)) == n
  | _ => false

/-- Equality of values: nothing equals what is not a number, and the two zeros are equal. -/
def same (a b : Binary64) : Bool := a ≠ nan && (a == b || (a.isZero && b.isZero))

/-- Whether `c * 10 ^ k` reads back as `m * 2 ^ e`. -/
def readsBack (m : Nat) (e : Int) (c : Nat) (k : Int) : Bool :=
  ofDecimal false c k == finite false m e

/-- The decimal at `k` nearest to `num / den` among its two neighbours that read back; of two equally
near ones the even. -/
def nearest? (m : Nat) (e : Int) (num den : Nat) (k : Int) : Option Nat :=
  let (n, d) := if 0 ≤ k then (num, den * Nat.pow 10 k.toNat) else (num * Nat.pow 10 (-k).toNat, den)
  let near := roundHalfEven n d
  let far := if near = n / d then near + 1 else n / d
  if readsBack m e near k then some near else if readsBack m e far k then some far else none

/-- Tries decimals with ever more digits, `k` being the place of the last. -/
def shortestFrom (m : Nat) (e : Int) (num den : Nat) : (fuel : Nat) → (k : Int) → Nat × Int
  | 0, k => (m, k)
  | fuel + 1, k =>
    match nearest? m e num den k with
    | some c => if c = 0 then shortestFrom m e num den fuel (k - 1) else (c, k)
    | none => shortestFrom m e num den fuel (k - 1)

/-- The fewest decimal digits that read back as a positive number, and the place of the last digit:
of several the nearest to the number. -/
def shortest (m : Nat) (e : Int) : Nat × Int :=
  let (num, den) := scale m 1 e
  let top : Int := (Nat.toDigits 10 (num / den)).length
  let top : Int := if num / den = 0 then -(Nat.toDigits 10 (den / num)).length + 1 else top
  shortestFrom m e num den 20 top

/-- The digits without trailing zeros, and the place after the point at which they start: the number
is `0.digits * 10 ^ place`. -/
def digitsAndPoint (m : Nat) (e : Int) : Text × Int :=
  let (c, k) := shortest m e
  let digits := Text.digits c
  (Text.dropEndWhile (· = '0') digits, k + digits.length)

/-- Decimal text: positional for points from `-3` to `16`, else with a signed exponent of two digits
or more; a point is always followed by a digit. -/
def toText : Binary64 → Text
  | nan => ['n', 'a', 'n']
  | infinite s => (if s then ['-'] else []) ++ ['i', 'n', 'f']
  | finite s m e =>
    let sign : Text := if s then ['-'] else []
    if m = 0 then sign ++ ['0', '.', '0']
    else
      let (digits, point) := digitsAndPoint m e
      if -4 < point ∧ point ≤ 16 then
        if point ≤ 0 then sign ++ ['0', '.'] ++ List.replicate (-point).toNat '0' ++ digits
        else
          let whole := digits.take point.toNat
          let rest := digits.drop point.toNat
          sign ++ whole ++ List.replicate (point.toNat - whole.length) '0' ++ ['.'] ++
            (if rest.isEmpty then ['0'] else rest)
      else
        let exponent := point - 1
        let places := Text.digits exponent.natAbs
        sign ++ digits.take 1 ++ (if digits.length = 1 then [] else '.' :: digits.drop 1) ++
          ['e', if exponent < 0 then '-' else '+'] ++
          (if places.length < 2 then '0' :: places else places)

end Binary64
end Narration
