import Narration.Number.Binary64
import Narration.Text.Quoted

/-!
# Values of data formats

* `Moment` : a point in time, with or without an offset from universal time;
* `Value` : what a data file holds;
* `Value.isTrue` : whether a value counts as given;
* `Value.same` : equality of keys, numbers being compared by value;
* `Value.shown` : a value as it stands in a list;
* `Value.kind` : what a value is called in messages;
* `Value.text` : a value as a text of its own;
* `Value.obstacle?`, `Value.written` : what stands in the way of writing a value, and its text if nothing does.
-/

namespace Narration

/-- A point in time; the offset from universal time is in minutes. -/
structure Moment where
  year : Nat
  month : Nat
  day : Nat
  hour : Nat
  minute : Nat
  second : Nat
  microsecond : Nat
  offset : Option Int
  deriving Repr, DecidableEq, Inhabited

/-- What a data file holds. Mappings keep the order in which their keys were first given. A list or
mapping that holds itself holds a `cycle` there. -/
inductive Value where
  | null
  | bool (b : Bool)
  | int (n : Int)
  | float (x : Binary64)
  | str (t : Text)
  | bytes (bs : List UInt8)
  | date (year month day : Nat)
  | moment (m : Moment)
  | list (items : List Value)
  | pair (first second : Value)
  | mapping (entries : List (Value × Value))
  | collection (members : List Value)
  | cycle (ofMapping : Bool)
  deriving Repr, Inhabited

namespace Value

/-- Whether a value counts as given: it is neither null, false, zero nor empty. -/
def isTrue : Value → Bool
  | null => false
  | bool b => b
  | int n => n != 0
  | float x => !x.isZero
  | str t => !t.isEmpty
  | bytes bs => !bs.isEmpty
  | list items => !items.isEmpty
  | mapping entries => !entries.isEmpty
  | collection members => !members.isEmpty
  | date .. | moment _ | pair .. | cycle _ => true

/-- The number that a boolean or an integer counts as. -/
def int? : Value → Option Int
  | bool b => some (if b then 1 else 0)
  | int n => some n
  | _ => none

/-- Whether two keys are equal. Numbers are compared by value, booleans counting as numbers. -/
def same : Value → Value → Bool
  | null, null => true
  | str a, str b => a == b
  | bytes a, bytes b => a == b
  | date a b c, date a' b' c' => a == a' && b == b' && c == c'
  | moment a, moment b => a == b
  | float a, float b => a.same b
  | float a, b => b.int?.any a.isInt
  | a, float b => a.int?.any b.isInt
  | pair a b, pair a' b' => same a a' && same b b'
  | a, b =>
    match a.int?, b.int? with
    | some m, some n => m == n
    | _, _ => false

/-- Enters a key; a key that is there already keeps its place and gets the new value. -/
def enter (entries : List (Value × Value)) (key value : Value) : List (Value × Value) :=
  if entries.any (·.1.same key) then
    entries.map fun entry => if entry.1.same key then (entry.1, value) else entry
  else entries ++ [(key, value)]

/-- The value of a textual key. -/
def get? (entries : List (Value × Value)) (key : Text) : Option Value :=
  (entries.find? (·.1.same (str key))).map (·.2)

/-- A number in a fixed number of digits. -/
def padded (width n : Nat) : Text :=
  let digits := Text.digits n
  List.replicate (width - digits.length) '0' ++ digits

/-- A day as year, month and day. -/
def dateText (year month day : Nat) : Text :=
  padded 4 year ++ '-' :: padded 2 month ++ '-' :: padded 2 day

/-- An offset from universal time as a sign, hours and minutes. -/
def offsetText (minutes : Int) : Text :=
  (if minutes < 0 then '-' else '+') :: padded 2 (minutes.natAbs / 60) ++
    ':' :: padded 2 (minutes.natAbs % 60)

/-- A point in time as day and time. -/
def momentText (m : Moment) : Text :=
  dateText m.year m.month m.day ++ ' ' :: padded 2 m.hour ++ ':' :: padded 2 m.minute ++
    ':' :: padded 2 m.second ++
    (if m.microsecond = 0 then [] else '.' :: padded 6 m.microsecond) ++
    (m.offset.map offsetText).getD []

/-- Texts in a row with a comma and a space between them. -/
def commas (ts : List Text) : Text := Text.join [',', ' '] ts

/-- An offset from universal time as it stands in a list. -/
def shownOffset (minutes : Int) : Text :=
  if minutes = 0 then "datetime.timezone.utc".toList
  else
    let days := minutes / 1440
    let seconds := minutes % 1440 * 60
    let parts := (if days = 0 then [] else ["days=".toList ++ (toString days).toList]) ++
      (if seconds = 0 then [] else ["seconds=".toList ++ (toString seconds).toList])
    "datetime.timezone(datetime.timedelta(".toList ++ commas parts ++ [')', ')']

/-- A point in time as it stands in a list; seconds and fractions of zero at the end are left out. -/
def shownMoment (m : Moment) : Text :=
  let fields := [m.year, m.month, m.day, m.hour, m.minute] ++
    (if m.microsecond ≠ 0 then [m.second, m.microsecond]
     else if m.second ≠ 0 then [m.second] else [])
  let zone := (m.offset.map fun o => ["tzinfo=".toList ++ shownOffset o]).getD []
  "datetime.datetime(".toList ++ commas (fields.map Text.digits ++ zone) ++ [')']

/-- Bytes as they stand in a list. -/
def shownBytes (bs : List UInt8) : Text :=
  let chars : Text := bs.map fun b => Char.ofNat b.toNat
  let quote := if chars.contains '\'' && !chars.contains '"' then '"' else '\''
  let shown (c : Char) : Text :=
    if c.toNat < 0x80 then Text.quotedChar quote c else ['\\', 'x'] ++ Text.hexadecimal 2 c.toNat
  'b' :: quote :: chars.flatMap shown ++ [quote]

mutual

/-- A value as it stands in a list. -/
def shown : Value → Text
  | null => "None".toList
  | bool b => (if b then "True" else "False").toList
  | int n => (toString n).toList
  | float x => x.toText
  | str t => Text.quoted t
  | bytes bs => shownBytes bs
  | date y m d => "datetime.date(".toList ++ commas ([y, m, d].map Text.digits) ++ [')']
  | moment m => shownMoment m
  | list items => '[' :: commas (shownAll items) ++ [']']
  | pair a b => '(' :: shown a ++ ',' :: ' ' :: shown b ++ [')']
  | mapping entries => '\x7b' :: commas (shownEntries entries) ++ ['\x7d']
  | collection members =>
    if members.isEmpty then "set()".toList
    else '\x7b' :: commas (shownAll members) ++ ['\x7d']
  | cycle ofMapping => (if ofMapping then "\x7b...\x7d" else "[...]").toList

def shownAll : List Value → List Text
  | [] => []
  | v :: vs => shown v :: shownAll vs

def shownEntries : List (Value × Value) → List Text
  | [] => []
  | (k, v) :: rest => (shown k ++ ':' :: ' ' :: shown v) :: shownEntries rest

end

/-- What a value is called in messages. -/
def kind : Value → String
  | null => "NoneType"
  | bool _ => "bool"
  | int _ => "int"
  | float _ => "float"
  | str _ => "str"
  | bytes _ => "bytes"
  | date .. => "datetime.date"
  | moment _ => "datetime.datetime"
  | list _ => "list"
  | pair .. => "tuple"
  | mapping _ => "dict"
  | collection _ => "set"
  | cycle ofMapping => if ofMapping then "dict" else "list"

/-- A value as a text of its own. -/
def text : Value → Text
  | str t => t
  | date y m d => dateText y m d
  | moment m => momentText m
  | v => shown v

/-! ## Values that cannot be written -/

/-- Why a value cannot be written. -/
inductive Unwritable where
  | integerTooLong
  | nestedTooDeeply
  deriving Repr, DecidableEq, Inhabited

/-- How many digits an integer may have that is written. -/
def maxDigits : Nat := 4300

/-- How deep lists and mappings may stand inside each other in a value that is written. -/
def writingBudget : Nat := 970

mutual

/-- The first obstacle to writing a value. -/
def obstacle? : Value → (budget : Nat) → Option Unwritable
  | int n, _ => if 10 ^ maxDigits ≤ n.natAbs then some .integerTooLong else none
  | list items, budget => if budget = 0 then some .nestedTooDeeply else obstacleAmong? items (budget - 1)
  | pair a b, budget =>
    if budget = 0 then some .nestedTooDeeply else (obstacle? a (budget - 1)).or (obstacle? b (budget - 1))
  | mapping entries, budget =>
    if budget = 0 then some .nestedTooDeeply else obstacleInEntries? entries (budget - 1)
  | collection members, budget =>
    if budget = 0 then some .nestedTooDeeply else obstacleAmong? members (budget - 1)
  | _, _ => none

def obstacleAmong? : List Value → (budget : Nat) → Option Unwritable
  | [], _ => none
  | v :: vs, budget => (obstacle? v budget).or (obstacleAmong? vs budget)

def obstacleInEntries? : List (Value × Value) → (budget : Nat) → Option Unwritable
  | [], _ => none
  | (k, v) :: rest, budget => ((obstacle? k budget).or (obstacle? v budget)).or (obstacleInEntries? rest budget)

end

/-- The text of a value that can be written. -/
def written (v : Value) : Except Unwritable Text :=
  match v.obstacle? writingBudget with
  | some u => .error u
  | none => .ok v.text

end Value
end Narration
