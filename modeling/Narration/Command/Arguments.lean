import Narration.Text.Blank
import Narration.Text.Digit
import Narration.Text.Quoted

/-!
# Arguments of a command

A word that begins with a hyphen is an option, spelled out or by any beginning that only one option
has; the others are operands. After two hyphens all words are operands.

* `OptionSpec` : an option of a command;
* `Arguments.Fault` : why arguments are refused;
* `Arguments.Word` : what a word is;
* `Arguments.wordsOf` : what the words of a command line are;
* `Arguments.option` : what an option does, and the words after it;
* `Arguments.Request` : what options ask for instead of a run.
-/

namespace Narration

/-- What a command prints instead of running. -/
inductive Arguments.Request where
  | help
  | version
  deriving Repr, DecidableEq, Inhabited

/-- What an option does to what a command collects: it sets something, with or without a value, or it
asks for something else than a run. -/
inductive OptionSpec.Meaning (σ : Type) where
  | flag (set : σ → σ)
  | value (set : Text → σ → σ)
  | request (r : Arguments.Request)

/-- An option with its spellings. -/
structure OptionSpec (σ : Type) where
  names : List Text
  meaning : OptionSpec.Meaning σ

namespace Arguments

/-- Why arguments are refused. -/
inductive Fault where
  | ambiguous (word : Text) (candidates : List Text)
  | missingValue (names : List Text)
  | unexpectedValue (names : List Text) (value : Text)
  | unknownCommand (word : Text) (commands : List Text)
  | unrecognized (words : List Text)
  deriving Repr, DecidableEq, Inhabited

def Fault.message : Fault → Text
  | .ambiguous word candidates =>
    "ambiguous option: ".toList ++ word ++ " could match ".toList ++ Text.join [',', ' '] candidates
  | .missingValue names =>
    "argument ".toList ++ Text.join ['/'] names ++ ": expected one argument".toList
  | .unexpectedValue names value =>
    "argument ".toList ++ Text.join ['/'] names ++ ": ignored explicit argument ".toList ++
      Text.quoted value
  | .unknownCommand word commands =>
    "argument command: invalid choice: ".toList ++ Text.quoted word ++ " (choose from ".toList ++
      Text.join [',', ' '] (commands.map Text.quoted) ++ [')']
  | .unrecognized words => "unrecognized arguments: ".toList ++ Text.join [' '] words

/-- What an option's word holds after its name: nothing, a text directly after it, or a value after an
equals sign. -/
inductive Tail where
  | nothing
  | attached (t : Text)
  | assigned (value : Text)
  deriving Repr, DecidableEq, Inhabited

/-- What a word is: an operand, the two hyphens, or an option, which may be unknown, with what
follows its name. -/
inductive Kind (σ : Type) where
  | operand
  | separator
  | option (spec : Option (OptionSpec σ)) (tail : Tail)

/-- A word and what it is. -/
structure Word (σ : Type) where
  text : Text
  kind : Kind σ

variable {σ : Type}

/-- The option with a name. -/
def named? (specs : List (OptionSpec σ)) (name : Text) : Option (OptionSpec σ) :=
  specs.find? (·.names.contains name)

/-- A hyphen and a number, which is an operand. -/
def isNegativeNumber (word : Text) : Bool :=
  match word with
  | '-' :: t =>
    let rest := t.dropWhile Text.isDigit
    match rest with
    | [] => !t.isEmpty
    | '.' :: places => !places.isEmpty && places.all Text.isDigit
    | _ => false
  | _ => false

/-- The options that a word may stand for by its beginning, with their names and what follows. -/
def candidates (specs : List (OptionSpec σ)) (word : Text) :
    List (OptionSpec σ × Text × Tail) :=
  let all := specs.flatMap fun spec => spec.names.map fun name => (spec, name)
  match word with
  | '-' :: '-' :: _ =>
    let (start, tail) := match Text.cut? '=' word with
      | some (start, value) => (start, .assigned value)
      | none => (word, .nothing)
    all.filterMap fun (spec, name) =>
      if Text.beginsWith name start then some (spec, name, tail) else none
  | _ =>
    all.filterMap fun (spec, name) =>
      if name = word.take 2 then some (spec, name, .attached (word.drop 2))
      else if Text.beginsWith name word then some (spec, name, .nothing) else none

/-- An option whose name is spelled out in front of an equals sign. -/
def joinedOption? (specs : List (OptionSpec σ)) (word : Text) : Option (Kind σ) := do
  let (name, value) ← Text.cut? '=' word
  return .option (some (← named? specs name)) (.assigned value)

/-- What a word is that is not two hyphens. -/
def kindOf (specs : List (OptionSpec σ)) (word : Text) : Except Fault (Kind σ) :=
  if word.head? ≠ some '-' then .ok .operand
  else match named? specs word with
    | some spec => .ok (.option (some spec) .nothing)
    | none =>
      if word.length = 1 then .ok .operand
      else match joinedOption? specs word with
        | some kind => .ok kind
        | none =>
          match candidates specs word with
          | [(spec, _, tail)] => .ok (.option (some spec) tail)
          | [] =>
            if isNegativeNumber word || word.contains ' ' then .ok .operand
            else .ok (.option none .nothing)
          | several => .error (.ambiguous word (several.map (·.2.1)))

/-- What the words of a command line are. -/
def wordsOf (specs : List (OptionSpec σ)) : List Text → Except Fault (List (Word σ))
  | [] => .ok []
  | word :: rest => do
    if word = ['-', '-'] then
      return ⟨word, .separator⟩ :: rest.map fun t => ⟨t, .operand⟩
    else
      let kind ← kindOf specs word
      return ⟨word, kind⟩ :: (← wordsOf specs rest)

/-- What options have collected, or what they ask for instead. -/
abbrev Collected (σ : Type) := Except Request σ

/-- Puts an option without a value into effect. -/
def applyFlag (spec : OptionSpec σ) (s : σ) : Collected σ :=
  match spec.meaning with
  | .flag set => .ok (set s)
  | .value _ => .ok s
  | .request r => .error r

/-- What an option comes to: what it does, the words it leaves that no one takes, and the words after
it. -/
structure Effect (σ : Type) where
  apply : σ → Collected σ
  extra : List Text
  rest : List (Word σ)

/-- Options of one letter each, run together behind a hyphen after the first of them; none takes a
value. From the first letter on that is no option's the rest is a word that no one takes. -/
def cluster (specs : List (OptionSpec σ)) (first : OptionSpec σ) : Text →
    Except Fault (List (OptionSpec σ) × List Text)
  | [] => .ok ([first], [])
  | '=' :: value => .error (.unexpectedValue first.names value)
  | '-' :: letters => .error (.unexpectedValue first.names ('-' :: letters))
  | c :: letters =>
    match named? specs ['-', c] with
    | some spec => do
      let (others, extra) ← cluster specs spec letters
      return (first :: others, extra)
    | none => .ok ([first], ['-' :: c :: letters])

/-- An option with its value, taken from the words after it if need be. -/
def option (specs : List (OptionSpec σ)) (spec : OptionSpec σ) (tail : Tail)
    (rest : List (Word σ)) : Except Fault (Effect σ) :=
  match spec.meaning, tail with
  | .value set, .attached value | .value set, .assigned value => .ok ⟨fun s => .ok (set value s), [], rest⟩
  | .value set, .nothing =>
    match rest with
    | ⟨value, .operand⟩ :: rest => .ok ⟨fun s => .ok (set value s), [], rest⟩
    | _ => .error (.missingValue spec.names)
  | _, .nothing => .ok ⟨applyFlag spec, [], rest⟩
  | _, .assigned value => .error (.unexpectedValue spec.names value)
  | _, .attached letters => do
    let (all, extra) ← cluster specs spec letters
    return ⟨fun s => all.foldlM (fun s spec => applyFlag spec s) s, extra, rest⟩

end Arguments
end Narration
