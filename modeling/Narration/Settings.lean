import Narration.Documents
import Narration.Player.Block
import Narration.Speech
import Narration.Yaml.Data

/-!
# Settings

Each setting is taken from the first place that gives it: the options of the command, the environment,
the settings file of the directory, a default.

* `Settings` : what a run needs to know;
* `Options` : what is given with the command;
* `Settings.Fault` : why there are no settings;
* `Settings.Stored` : what a settings file says;
* `Settings.fromFile` : the settings file of a directory;
* `Settings.voicesFrom` : the voices that are asked for;
* `Settings.assembled`, `Settings.resolve` : the settings of a run.
-/

namespace Narration

/-- What a run needs to know. The name of the player and the place it is imported from may be any
value of the settings file; what is no text is written as it would be shown. -/
structure Settings where
  voiceIds : List Text
  voiceNames : List Text
  bucket : Text
  region : Text
  endpoint : Option Text
  accessKeyId : Text
  secretAccessKey : Text
  publicUrl : Text
  folder : Text
  componentName : Value
  componentImport : Value
  pattern : Text
  rate : Text
  branchPaths : Bool
  dryRun : Bool
  verbose : Bool
  deriving Inhabited

/-- What is given with the command; an empty text counts as not given. -/
structure Options where
  voices : Option Text
  voiceNames : Option Text
  bucket : Option Text
  region : Option Text
  endpoint : Option Text
  accessKeyId : Option Text
  secretAccessKey : Option Text
  publicUrl : Option Text
  folder : Option Text
  componentName : Option Text
  componentImport : Option Text
  pattern : Option Text
  rate : Option Text
  branchPaths : Bool
  dryRun : Bool
  verbose : Bool
  deriving Repr, DecidableEq, Inhabited

/-- The variables of an environment. -/
abbrev Environment := List (Text × Text)

namespace Settings

/-- Settings when nothing is asked for. -/
def default : Settings where
  voiceIds := []
  voiceNames := []
  bucket := []
  region := "us-east-1".toList
  endpoint := none
  accessKeyId := []
  secretAccessKey := []
  publicUrl := []
  folder := "audio".toList
  componentName := .str Player.defaultName
  componentImport := .str Player.defaultPath
  pattern := Documents.defaultPattern
  rate := Speech.defaultRate
  branchPaths := false
  dryRun := false
  verbose := false

/-- The voices of a run: identifiers and names in pairs. -/
def voices (s : Settings) : List Voice :=
  List.zipWith (fun id name => ⟨id, name, []⟩) s.voiceIds s.voiceNames

/-- A setting for the store that must be given. -/
inductive Required where
  | bucket
  | accessKeyId
  | secretAccessKey
  | publicUrl
  deriving Repr, DecidableEq, Inhabited

/-- Why there are no settings: the names do not pair with the voices, no voices or not all settings of
the store are given, or the settings file cannot be read or holds impossible values. -/
inductive Fault where
  | namesDoNotPair
  | noVoices
  | missing (settings : List Required)
  | file (f : Documents.Fault)
  | value (f : Yaml.Fault)
  deriving Repr, DecidableEq

/-- The name of the settings file of a directory. -/
def fileName : Text := "speaker-config.yaml".toList

def Required.label : Required → String
  | .bucket => "S3_BUCKET (--s3-bucket or env var)"
  | .accessKeyId => "S3_ACCESS_KEY_ID (--s3-access-key-id or env var)"
  | .secretAccessKey => "S3_SECRET_ACCESS_KEY (--s3-secret-access-key or env var)"
  | .publicUrl => "S3_PUBLIC_URL (--s3-public-url or env var)"

def Fault.message : Fault → Text
  | .namesDoNotPair => "Number of voice IDs must match number of voice names".toList
  | .noVoices =>
    "Voices must be specified via --voices, SPEAK_VOICES or in ".toList ++ fileName
  | .missing settings =>
    "Missing required configuration:\n  - ".toList ++
      Text.join "\n  - ".toList (settings.map (·.label.toList)) ++
      "\n\nSet these via CLI flags or environment variables.".toList
  | .file f => f.message
  | .value f => f.message.toList

/-! ## The settings file -/

/-- What a settings file says: the voices with their names, and of the player its name and where it is
imported from. -/
structure Stored where
  voices : Option (List (Value × Value))
  componentName : Option Value
  componentImport : Option Value
  deriving Repr, Inhabited

namespace Stored

/-- Nothing is said. -/
def nothing : Stored := ⟨none, none, none⟩

/-- What the mapping under a key holds. -/
def mappingAt? (data : Yaml.Data) (entries : List (Value × Nat)) (key : String) :
    Option (List (Value × Nat)) :=
  (Yaml.entry? entries key.toList).bind data.entries?

/-- What the entries of a settings file say. -/
def ofEntries (data : Yaml.Data) (entries : List (Value × Nat)) : Stored :=
  let component := (mappingAt? data entries "component").getD []
  let componentValue (key : String) := (Yaml.entry? component key.toList).map data.value
  { voices := (mappingAt? data entries "voices").map fun voices =>
      voices.map fun (id, name) => (id, data.value name)
    componentName := (componentValue "name").filter Value.isTrue
    componentImport := (componentValue "import").filter Value.isTrue }

/-- What the bytes of a settings file say. A file that is not well formed or no mapping is passed over
with a warning. -/
def ofBytes (bytes : List UInt8) : Except Fault (Stored × List Warning) := do
  let t ← (Utf8.decodeStream bytes).mapError fun f => .file (.encoding f)
  match Yaml.read t with
  | .ok data =>
    match data.root.bind data.entries? with
    | some entries => return (ofEntries data entries, [])
    | none => return (nothing, [.settingsFileNotMapping])
  | .error .malformed => return (nothing, [.malformedSettingsFile])
  | .error f => throw (.value f)

end Stored

/-- What the settings file of a directory says, if there is one. -/
def fromFile (f : Files) (directory : Text) : Except Fault (Stored × List Warning) :=
  let path := Path.join directory fileName
  if f.doesExist path then do
    Stored.ofBytes (← (f.read path).mapError fun e => .file (.file e))
  else .ok (.nothing, [])

/-! ## Resolution -/

/-- A text unless it is empty. -/
def given (t : Option Text) : Option Text := t.filter (!·.isEmpty)

/-- The words between commas, without blanks around them. -/
def commaSeparated (t : Text) : List Text :=
  ((Text.splitOn ',' t).map Text.trim).filter (!·.isEmpty)

/-- A name for each voice that has none. -/
def numbered (count : Nat) : List Text :=
  (List.range count).map fun i => "Voice ".toList ++ Text.digits (i + 1)

/-- Pairs voices with names, which must be as many; without names the voices are numbered. -/
def paired (ids : List Text) (names : Option (List Text)) : Except Fault (List Text × List Text) :=
  let names := names.getD (numbered ids.length)
  if ids.length = names.length then .ok (ids, names) else .error .namesDoNotPair

/-- The text of a value of the settings file. -/
def written (v : Value) : Except Fault Text := v.written.mapError fun u => .value (.unwritable u)

/-- The voices that are asked for, with their names: those of the options, the environment or the
settings file. Names from the environment are used only for voices from the environment. -/
def voicesFrom (o : Options) (env : Environment) (stored : Stored) :
    Except Fault (List Text × List Text) :=
  match given o.voices, given (env.lookup "SPEAK_VOICES".toList) with
  | some ids, _ => paired (commaSeparated ids) ((given o.voiceNames).map commaSeparated)
  | none, some ids =>
    let names := (given o.voiceNames).or (given (env.lookup "SPEAK_VOICE_NAMES".toList))
    paired (commaSeparated ids) (names.map commaSeparated)
  | none, none =>
    match stored.voices with
    | some voices => do
      let ids ← voices.mapM fun voice => written voice.1
      let names ← voices.mapM fun voice => written voice.2
      paired ids (some names)
    | none => .ok ([], [])

/-- The first given: an option, what the settings file says, a default. -/
def componentValue (option : Option Text) (stored : Option Value) (default : Text) : Value :=
  match given option with
  | some t => .str t
  | none => stored.getD (.str default)

/-- The settings for the store that are not given. -/
def missing (s : Settings) : List Required :=
  (if s.bucket.isEmpty then [.bucket] else []) ++
    (if s.accessKeyId.isEmpty then [.accessKeyId] else []) ++
    (if s.secretAccessKey.isEmpty then [.secretAccessKey] else []) ++
    (if s.publicUrl.isEmpty then [.publicUrl] else [])

/-- The settings with these voices, required ones or not. -/
def assembled (o : Options) (env : Environment) (stored : Stored) (voiceIds voiceNames : List Text) : Settings :=
  let pick (option : Option Text) (key : String) : Option Text :=
    (given option).or (given (env.lookup key.toList))
  { voiceIds, voiceNames
    bucket := (pick o.bucket "S3_BUCKET").getD []
    region := (pick o.region "S3_REGION").getD default.region
    endpoint := pick o.endpoint "S3_ENDPOINT"
    accessKeyId := (pick o.accessKeyId "S3_ACCESS_KEY_ID").getD []
    secretAccessKey := (pick o.secretAccessKey "S3_SECRET_ACCESS_KEY").getD []
    publicUrl := (pick o.publicUrl "S3_PUBLIC_URL").getD []
    folder := (given o.folder).getD default.folder
    componentName := componentValue o.componentName stored.componentName Player.defaultName
    componentImport := componentValue o.componentImport stored.componentImport Player.defaultPath
    pattern := (given o.pattern).getD default.pattern
    rate := (given o.rate).getD default.rate
    branchPaths := o.branchPaths
    dryRun := o.dryRun
    verbose := o.verbose }

/-- The settings of a run, from the options, the environment and the settings file; voices and the
settings of the store may be required. -/
def resolve (o : Options) (env : Environment) (stored : Stored)
    (requireVoices requireStore : Bool) : Except Fault Settings := do
  let (voiceIds, voiceNames) ← voicesFrom o env stored
  if requireVoices && voiceIds.isEmpty then throw .noVoices
  let s := assembled o env stored voiceIds voiceNames
  if requireStore && !(missing s).isEmpty then throw (.missing (missing s))
  return s

end Settings
end Narration
