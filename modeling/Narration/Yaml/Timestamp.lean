import Narration.Text.Digit
import Narration.Value
import Narration.Yaml.Fault

/-!
# Timestamps

A day, perhaps with a time, perhaps with an offset from universal time.

* `Timestamp` : the numbers as they are written;
* `Timestamp.read?` : the numbers of a text;
* `Timestamp.isPlain` : whether a text without a tag is a timestamp;
* `Timestamp.value` : the point in time, if there is one.
-/

namespace Narration.Yaml

/-- The time of a timestamp; the offset from universal time is in minutes. -/
structure Timestamp.Time where
  hour : Nat
  minute : Nat
  second : Nat
  microsecond : Nat
  offset : Option Int
  deriving Repr, DecidableEq

/-- The numbers of a timestamp, `full` telling whether month and day have two digits each. -/
structure Timestamp where
  year : Nat
  month : Nat
  day : Nat
  full : Bool
  time : Option Timestamp.Time
  deriving Repr, DecidableEq

namespace Timestamp

/-- From `least` to `most` digits at the front of a text as a number, their count, and the rest. -/
def number? (least most : Nat) (t : Text) : Option (Nat × Nat × Text) := do
  let digits := (t.take most).takeWhile Char.isDigit
  if digits.length < least then none
  return (← Text.decimal? digits, digits.length, t.drop digits.length)

/-- What follows a character. -/
def past? (c : Char) : Text → Option Text
  | x :: t => if x = c then some t else none
  | [] => none

/-- Microseconds from the digits of a fraction. -/
def microseconds (digits : Text) : Nat :=
  let digits := digits.take 6
  (Text.decimal? (digits ++ List.replicate (6 - digits.length) '0')).getD 0

/-- The offset at the end of a timestamp; nothing if what stands there is none. -/
def offset? (t : Text) : Option (Option Int) :=
  match t with
  | [] => some none
  | _ =>
    match t.dropWhile (fun c => c == ' ' || c == '\t') with
    | ['Z'] => some (some 0)
    | sign :: t =>
      if sign ≠ '+' ∧ sign ≠ '-' then none
      else do
        let (hours, _, t) ← number? 1 2 t
        let minutes ← match t with
          | [] => some 0
          | ':' :: t => do
            let (minutes, _, t) ← number? 2 2 t
            if t.isEmpty then some minutes else none
          | _ => none
        let total : Int := hours * 60 + minutes
        return some (if sign = '-' then -total else total)
    | [] => none

/-- The time of day after its mark. -/
def time? (t : Text) : Option Time := do
  let (hour, _, t) ← number? 1 2 t
  let (minute, _, t) ← number? 2 2 (← past? ':' t)
  let (second, _, t) ← number? 2 2 (← past? ':' t)
  let (digits, t) := match t with
    | '.' :: t => t.span Char.isDigit
    | t => ([], t)
  return ⟨hour, minute, second, microseconds digits, ← offset? t⟩

/-- What follows the mark between day and time: a letter, or blanks. -/
def timePart? (t : Text) : Option Text :=
  match t with
  | 'T' :: t => some t
  | 't' :: t => some t
  | _ =>
    let rest := t.dropWhile (fun c => c == ' ' || c == '\t')
    if rest.length = t.length then none else some rest

/-- The numbers of a timestamp. -/
def read? (t : Text) : Option Timestamp := do
  let (year, _, t) ← number? 4 4 t
  let (month, places, t) ← number? 1 2 (← past? '-' t)
  let (day, places', t) ← number? 1 2 (← past? '-' t)
  let time ← if t.isEmpty then some none else (time? (← timePart? t)).map some
  return ⟨year, month, day, places == 2 && places' == 2, time⟩

/-- Whether a text without a tag is a timestamp: a day alone must be written in full. -/
def isPlain (t : Text) : Bool :=
  (read? t).any fun stamp => stamp.full || stamp.time.isSome

def isLeapYear (year : Nat) : Bool := year % 4 == 0 && (year % 100 != 0 || year % 400 == 0)

def daysIn (year month : Nat) : Nat :=
  if month = 2 then if isLeapYear year then 29 else 28
  else if month = 4 ∨ month = 6 ∨ month = 9 ∨ month = 11 then 30 else 31

/-- Refuses a day that there is not. -/
def checkDay (s : Timestamp) : Except Fault Unit :=
  if s.year = 0 then .error (.yearOutOfRange s.year)
  else if s.month = 0 ∨ 12 < s.month then .error .monthOutOfRange
  else if s.day = 0 ∨ daysIn s.year s.month < s.day then .error .dayOutOfRange
  else .ok ()

/-- Refuses a time that there is not. -/
def Time.check (t : Time) : Except Fault Unit :=
  if 23 < t.hour then .error .hourOutOfRange
  else if 59 < t.minute then .error .minuteOutOfRange
  else if 59 < t.second then .error .secondOutOfRange
  else .ok ()

/-- Refuses an offset of a day or more. -/
def Time.checkOffset (t : Time) : Except Fault Unit :=
  match t.offset with
  | some o => if o.natAbs < 1440 then .ok () else .error (.offsetOutOfRange o)
  | none => .ok ()

/-- The day or the point in time. -/
def value (s : Timestamp) : Except Fault Value := do
  match s.time with
  | none =>
    s.checkDay
    return .date s.year s.month s.day
  | some t =>
    t.checkOffset
    s.checkDay
    t.check
    return .moment
      ⟨s.year, s.month, s.day, t.hour, t.minute, t.second, t.microsecond, t.offset⟩

end Timestamp
end Narration.Yaml
