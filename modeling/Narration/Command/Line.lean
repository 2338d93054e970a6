import Narration.Command.Arguments
import Narration.Settings

/-!
# Command lines

* `Command` : the commands;
* `Command.options` : the options of each;
* `CommandLine` : what a command line asks for;
* `CommandLine.Fault` : why a command line is refused, and by which command;
* `CommandLine.read` : what the words of a command line ask for.
-/

namespace Narration

/-- The commands. -/
inductive Command where
  | generate
  | cleanup
  | remove
  deriving Repr, DecidableEq, Inhabited

namespace Command

def all : List Command := [generate, cleanup, remove]

def name : Command → Text
  | generate => "generate".toList
  | cleanup => "cleanup".toList
  | remove => "remove".toList

/-- The name of the program. -/
def program : Text := "speak-docs".toList

/-- An option with a value. -/
def valued (name : String) (set : Text → Options → Options) : OptionSpec Options :=
  ⟨[name.toList], .value set⟩

/-- An option without a value. -/
def flag (names : List String) (set : Options → Options) : OptionSpec Options :=
  ⟨names.map String.toList, .flag set⟩

/-- The option that asks for help. -/
def help (σ : Type) : OptionSpec σ := ⟨["-h".toList, "--help".toList], .request .help⟩

/-- The options in front of the command. -/
def outerOptions : List (OptionSpec Unit) := [help Unit, ⟨["--version".toList], .request .version⟩]

/-- The options of every command. -/
def commonOptions : List (OptionSpec Options) := [
  help Options,
  valued "--component-name" fun t o => { o with componentName := some t },
  valued "--pattern" fun t o => { o with pattern := some t },
  flag ["--dry-run"] fun o => { o with dryRun := true },
  flag ["-v", "--verbose"] fun o => { o with verbose := true }]

/-- The options on the store. -/
def storeOptions : List (OptionSpec Options) := [
  valued "--s3-bucket" fun t o => { o with bucket := some t },
  valued "--s3-region" fun t o => { o with region := some t },
  valued "--s3-endpoint" fun t o => { o with endpoint := some t },
  valued "--s3-access-key-id" fun t o => { o with accessKeyId := some t },
  valued "--s3-secret-access-key" fun t o => { o with secretAccessKey := some t },
  valued "--s3-public-url" fun t o => { o with publicUrl := some t },
  valued "--s3-path-prefix" fun t o => { o with folder := some t },
  flag ["--branch-paths"] fun o => { o with branchPaths := true }]

/-- The options on voices and on how they are embedded. -/
def voiceOptions : List (OptionSpec Options) := [
  valued "--voices" fun t o => { o with voices := some t },
  valued "--voice-names" fun t o => { o with voiceNames := some t },
  valued "--component-import" fun t o => { o with componentImport := some t },
  valued "--rate" fun t o => { o with rate := some t }]

/-- The options of a command. -/
def options : Command → List (OptionSpec Options)
  | generate => commonOptions ++ storeOptions ++ voiceOptions
  | cleanup => commonOptions ++ storeOptions
  | remove => commonOptions

end Command

/-- What a command line asks for: nothing, help, the version, or a command for a directory. -/
inductive CommandLine where
  | nothing
  | help (command : Option Command)
  | version
  | perform (command : Command) (directory : Text) (options : Options)
  deriving Repr, DecidableEq, Inhabited

namespace CommandLine

/-- Why a command line is refused, and the program or command that refuses it. -/
structure Fault where
  refuser : Text
  cause : Arguments.Fault
  deriving Repr, DecidableEq, Inhabited

/-- The last line of what is said of a refusal. -/
def Fault.message (f : Fault) : Text := f.refuser ++ ": error: ".toList ++ f.cause.message

open Arguments

/-- The operand at the front of words and the words after it: two hyphens before it or directly after
it are passed over, and the operand may be missing between them. -/
def operand : List (Word Options) → Option Text × List (Word Options)
  | ⟨_, .separator⟩ :: ⟨t, .operand⟩ :: rest => (some t, rest)
  | ⟨_, .separator⟩ :: rest => (none, rest)
  | ⟨t, .operand⟩ :: ⟨_, .separator⟩ :: rest => (some t, rest)
  | ⟨t, .operand⟩ :: rest => (some t, rest)
  | words => (none, words)

/-- What the words of a command have given so far: the directory, once its place has been passed; the
words that no one takes; and what the options have collected. -/
structure Given where
  directory : Option Text
  extra : List Text
  options : Options

/-- Reads the words of a command; `fuel` bounds how many there are. -/
def readWords (specs : List (OptionSpec Options)) : (fuel : Nat) → Given → List (Word Options) →
    Except Arguments.Fault (Collected Given)
  | 0, given, _ => .ok (.ok given)
  | _, given, [] => .ok (.ok given)
  | fuel + 1, given, word :: rest =>
    match word.kind with
    | .option none _ => readWords specs fuel { given with extra := given.extra ++ [word.text] } rest
    | .option (some spec) tail => do
      let effect ← option specs spec tail rest
      match effect.apply given.options with
      | .ok options =>
        readWords specs fuel { given with options, extra := given.extra ++ effect.extra } effect.rest
      | .error request => return .error request
    | _ =>
      match given.directory with
      | some _ => readWords specs fuel { given with extra := given.extra ++ [word.text] } rest
      | none =>
        let (directory, rest) := operand (word :: rest)
        readWords specs fuel { given with directory := some (directory.getD ['.']) } rest

/-- No options at all. -/
def noOptions : Options :=
  ⟨none, none, none, none, none, none, none, none, none, none, none, none, none, false, false, false⟩

/-- What the words after a command ask for, and the words that no one takes. -/
def readCommand (command : Command) (words : List Text) :
    Except Arguments.Fault (CommandLine × List Text) := do
  let kinds ← wordsOf command.options words
  match ← readWords command.options (words.length + 1) ⟨none, [], noOptions⟩ kinds with
  | .ok given => return (.perform command (given.directory.getD ['.']) given.options, given.extra)
  | .error .help => return (.help (some command), [])
  | .error .version => return (.version, [])

/-- Says who refuses. -/
def refusedBy {α : Type} (refuser : Text) : Except Arguments.Fault α → Except Fault α :=
  Except.mapError fun cause => ⟨refuser, cause⟩

/-- What words ask for once the options in front of the command have been passed; `extra` are the words
that no one took. -/
def readOuter (extra : List Text) : List (Word Unit) → Except Fault (CommandLine × List Text)
  | [] => .ok (.nothing, extra)
  | ⟨text, .option none _⟩ :: rest => readOuter (extra ++ [text]) rest
  | ⟨_, .option (some spec) tail⟩ :: rest => do
    let effect ← refusedBy Command.program (option Command.outerOptions spec tail rest)
    match effect.apply () with
    | .ok () => readOuter (extra ++ effect.extra) rest
    | .error .help => return (.help none, [])
    | .error .version => return (.version, [])
  | [⟨text, .separator⟩] => .ok (.nothing, extra ++ [text])
  | ⟨text, _⟩ :: rest => do
    match Command.all.find? (·.name = text) with
    | none =>
      throw ⟨Command.program, .unknownCommand text (Command.all.map Command.name)⟩
    | some command =>
      let (line, more) ← refusedBy (Command.program ++ ' ' :: command.name)
        (readCommand command (rest.map (·.text)))
      return (line, extra ++ more)

/-- Whether what is asked for is printed at once, whatever other words there are. -/
def isPrinted : CommandLine → Bool
  | help _ | version => true
  | _ => false

/-- What the words of a command line ask for. -/
def read (words : List Text) : Except Fault CommandLine := do
  let kinds ← refusedBy Command.program (wordsOf Command.outerOptions words)
  let (line, extra) ← readOuter [] kinds
  if line.isPrinted || extra.isEmpty then return line
  else throw ⟨Command.program, .unrecognized extra⟩

end CommandLine
end Narration
