import Narration.Yaml.Numeral
import Narration.Yaml.Timestamp

/-!
# Tags

* `Tag` : what a node is said to be;
* `Tag.ofUri` : the tag of a full name;
* `Tag.ofPlain` : the tag of a plain scalar that has none.
-/

namespace Narration.Yaml

/-- What a node is said to be. -/
inductive Tag where
  | null
  | truthValue
  | integer
  | decimal
  | binary
  | timestamp
  | text
  | sequence
  | mapping
  | orderedMapping
  | pairs
  | set
  | merge
  | value
  | other
  deriving Repr, DecidableEq, Inhabited

namespace Tag

/-- The beginning of all standard tags. -/
def standard : Text := "tag:yaml.org,2002:".toList

/-- The standard tags by the ends of their names. -/
def names : List (String × Tag) :=
  [("null", null), ("bool", truthValue), ("int", integer), ("float", decimal), ("binary", binary),
    ("timestamp", timestamp), ("str", text), ("seq", sequence), ("map", mapping),
    ("omap", orderedMapping), ("pairs", pairs), ("set", set), ("merge", merge), ("value", value)]

/-- The tag of a full name. -/
def ofUri (uri : Text) : Tag :=
  match Text.after? standard uri with
  | some name => ((names.find? (·.1.toList = name)).map (·.2)).getD other
  | none => other

/-- The truth values and what they mean; each may be written small, with a capital, or in
capitals. -/
def truthValues : List (String × Bool) :=
  [("yes", true), ("no", false), ("true", true), ("false", false), ("on", true), ("off", false)]

/-- The three ways to write a word of a document. -/
def spellings (word : String) : List Text :=
  let small := word.toList
  let capital := match small with
    | c :: t => c.toUpper :: t
    | [] => []
  [small, capital, small.map Char.toUpper]

/-- The tag of a plain scalar that has none. -/
def ofPlain (t : Text) : Tag :=
  if truthValues.any fun (word, _) => (spellings word).contains t then truthValue
  else if Numeral.isDecimal t then decimal
  else if Numeral.isInteger t then integer
  else if t = ['<', '<'] then merge
  else if t.isEmpty || t = ['~'] || (spellings "null").contains t then null
  else if Timestamp.isPlain t then timestamp
  else if t = ['='] then value
  else text

end Tag
end Narration.Yaml
