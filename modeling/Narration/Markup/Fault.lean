import Narration.Text.Basic

/-!
# What stops the reading and editing of a document

* `Markup.Fault` : the causes;
* `Markup.Fault.message` : their wordings.
-/

namespace Narration.Markup

/-- Why a text cannot be read as a tree, or not be edited by it. -/
inductive Fault where
  /-- Containers stand inside each other beyond the nesting limit. -/
  | nestedTooDeeply
  /-- A block was read that covers nothing, so that reading never gets past it. -/
  | endless
  /-- A number has more digits than are converted. -/
  | tooManyDigits (count : Nat)
  /-- The lines that a position tells of are not there. -/
  | linesMissing
  /-- Lists and objects stand inside each other beyond the nesting limit. -/
  | payloadNestedTooDeeply (isObject : Bool)
  deriving Repr, DecidableEq, Inhabited

def Fault.message : Fault → Text
  | .nestedTooDeeply => "maximum recursion depth exceeded".toList
  | .endless => "reading does not come to an end".toList
  | .tooManyDigits count =>
    "Exceeds the limit (4300 digits) for integer string conversion: value has ".toList ++
      Text.digits count ++ " digits; use sys.set_int_max_str_digits() to increase the limit".toList
  | .linesMissing => "list index out of range".toList
  | .payloadNestedTooDeeply isObject =>
    "maximum recursion depth exceeded while decoding a JSON ".toList ++
      (if isObject then "object" else "array").toList ++ " from a unicode string".toList

end Narration.Markup
