import Narration.Json.Reader
import Narration.Markup.Node
import Narration.Report
import Narration.Voice

/-!
# The voices of a player tag

A player tag carries its voices as JSON in one attribute.

* `Voice.quote` : a text as a JSON string;
* `Voice.payload` : the voices as JSON, laid out under the tag;
* `Voice.ofPayload` : the voices that an attribute value records.
-/

namespace Narration.Voice

/-- How a character is written in a JSON string: quotes, backslashes and controls as escapes, all else
as it is. -/
def quoteChar (c : Char) : Text :=
  match c with
  | '"' => ['\\', '"']
  | '\\' => ['\\', '\\']
  | '\n' => ['\\', 'n']
  | '\r' => ['\\', 'r']
  | '\t' => ['\\', 't']
  | '\x08' => ['\\', 'b']
  | '\x0c' => ['\\', 'f']
  | c => if c.toNat < 0x20 then ['\\', 'u'] ++ Text.hexadecimal 4 c.toNat else [c]

/-- A text as a JSON string. -/
def quote (t : Text) : Text := '"' :: t.flatMap quoteChar ++ ['"']

/-- The fields that are written; an empty address is left out. -/
def fields (v : Voice) : List (Text × Text) :=
  [("id".toList, v.id), ("name".toList, v.name)] ++
    (if v.url.isEmpty then [] else [("url".toList, v.url)])

/-- Lines with a comma after each but the last. -/
def separated : List Text → List Text
  | [] => []
  | [line] => [line]
  | line :: rest => (line ++ [',']) :: separated rest

/-- An indented line. -/
def indented (n : Nat) (t : Text) : Text := List.replicate n ' ' ++ t

/-- The lines of one voice, without a comma after the last. -/
def lines (v : Voice) : List Text :=
  [indented 4 ['\x7b']] ++
    separated (v.fields.map fun (key, value) => indented 6 (quote key ++ ':' :: ' ' :: quote value)) ++
    [indented 4 ['\x7d']]

/-- The lines of several voices, a comma between two of them. -/
def allLines : List Voice → List Text
  | [] => []
  | [v] => v.lines
  | v :: vs => v.lines.dropLast ++ [indented 4 ['\x7d', ',']] ++ allLines vs

/-- The voices as a JSON list; each line but the first is indented under the tag. -/
def payload (voices : List Voice) : Text :=
  if voices.isEmpty then ['[', ']']
  else Text.unlines ([['[']] ++ allLines voices ++ [indented 2 [']']])

/-- The text of a field, empty when it is missing. -/
def fieldText (entries : List (Value × Value)) (key : String) : Text :=
  ((Value.get? entries key.toList).map Value.text).getD []

/-- The voice of an entry, which must be an object with an id. -/
def ofEntry? : Value → Option Voice
  | .mapping entries =>
    if (Value.get? entries "id".toList).any Value.isTrue then
      some ⟨fieldText entries "id", fieldText entries "name", fieldText entries "url"⟩
    else none
  | _ => none

/-- The voices of some entries; others are passed over with a warning. -/
def ofEntries : List Value → Report (List Voice)
  | [] => return []
  | entry :: entries => do
    match ofEntry? entry with
    | some v => return v :: (← ofEntries entries)
    | none =>
      Report.warn .malformedVoice
      ofEntries entries

/-- The voices that a JSON text records. -/
def ofSource (source : Text) : Report (List Voice) := do
  match Json.read source with
  | .ok (.list entries) => ofEntries entries
  | .ok _ =>
    Report.warn .payloadNotList
    return []
  | .error .malformed =>
    Report.warn .malformedPayload
    return []
  | .error (.tooManyDigits n) => throw (.tooManyDigits n)
  | .error (.nestedTooDeeply isObject) => throw (.payloadNestedTooDeeply isObject)

/-- The voices that an attribute value records; without a value there are none. -/
def ofPayload : Option AttributeValue → Report (List Voice)
  | none => return []
  | some (.literal source) => ofSource source
  | some (.expression source) => ofSource source

end Narration.Voice
