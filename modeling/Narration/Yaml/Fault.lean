import Narration.Value

/-!
# Why YAML cannot be read

* `Yaml.Fault` : the causes;
* `Yaml.Fault.message` : their wordings.
-/

namespace Narration.Yaml

/-- Why a document cannot be read. Apart from not being well formed, collections may stand inside each
other too deeply, a scalar may not be what its tag says it is, and a value may be needed as a text that cannot be
written. -/
inductive Fault where
  | malformed
  | nestedTooDeeply
  | badInteger (base : Nat) (digits : Text)
  | tooManyDigits (count : Nat)
  | badDecimal (digits : Text)
  | emptyNumber
  | badTruthValue (word : Text)
  | noTimestamp
  | yearOutOfRange (year : Nat)
  | monthOutOfRange
  | dayOutOfRange
  | hourOutOfRange
  | minuteOutOfRange
  | secondOutOfRange
  | offsetOutOfRange (minutes : Int)
  | characterOutOfRange (code : Nat)
  | unwritable (u : Value.Unwritable)
  deriving Repr, DecidableEq, Inhabited

/-- An offset in minutes as days and seconds. -/
def offsetParts (minutes : Int) : String :=
  let days := minutes / 1440
  let seconds := minutes % 1440 * 60
  let parts := (if days = 0 then [] else [s!"days={days}"]) ++
    (if seconds = 0 then [] else [s!"seconds={seconds}"])
  ", ".intercalate parts

def Fault.message : Fault → String
  | .malformed => "malformed document"
  | .nestedTooDeeply => "maximum recursion depth exceeded"
  | .badInteger base digits =>
    s!"invalid literal for int() with base {base}: {Text.str (Text.quoted digits)}"
  | .tooManyDigits count =>
    s!"Exceeds the limit (4300 digits) for integer string conversion: value has {count} digits; " ++
      "use sys.set_int_max_str_digits() to increase the limit"
  | .badDecimal digits => s!"could not convert string to float: {Text.str (Text.quoted digits)}"
  | .emptyNumber => "string index out of range"
  | .badTruthValue word => Text.str (Text.quoted word)
  | .noTimestamp => "'NoneType' object has no attribute 'groupdict'"
  | .yearOutOfRange year => s!"year {year} is out of range"
  | .monthOutOfRange => "month must be in 1..12"
  | .dayOutOfRange => "day is out of range for month"
  | .hourOutOfRange => "hour must be in 0..23"
  | .minuteOutOfRange => "minute must be in 0..59"
  | .secondOutOfRange => "second must be in 0..59"
  | .offsetOutOfRange minutes =>
    "offset must be a timedelta strictly between -timedelta(hours=24) and timedelta(hours=24), " ++
      s!"not datetime.timedelta({offsetParts minutes})."
  | .characterOutOfRange code =>
    if code < 0x80000000 then "chr() arg not in range(0x110000)"
    else "Python int too large to convert to C int"
  | .unwritable .integerTooLong =>
    "Exceeds the limit (4300 digits) for integer string conversion; " ++
      "use sys.set_int_max_str_digits() to increase the limit"
  | .unwritable .nestedTooDeeply =>
    "maximum recursion depth exceeded while getting the repr of an object"

end Narration.Yaml
