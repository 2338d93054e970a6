import Narration.Storage.Layout

/-!
# The store of audio

A bucket is a set of keys. Requests to it are recorded in order, those that fail too.

* `Store` : the keys, the requests made, and how the service behaves and tells its keys;
* `Store.Fault` : why audio could not be stored, listed or deleted;
* `Store.upload` : storing audio under a key;
* `Store.pages`, `Store.list` : the keys below a root, page by page, and those of audio files;
* `Store.delete` : deleting keys, a batch at a time.
-/

namespace Narration

namespace Store

/-- How the service refuses a request. -/
inductive Refusal where
  | rejected (code message : Text)
  | unspecified
  deriving Repr, DecidableEq, Inhabited

/-- How a request fails: the service refuses it, or something else breaks. -/
inductive Trouble where
  | refused (r : Refusal)
  | broken (message : Text)
  deriving Repr, DecidableEq, Inhabited

/-- A request to the service. -/
inductive Request where
  | put (bucket key : Text) (content : List UInt8) (mediaType : Text)
  | list (bucket root : Text)
  | delete (bucket : Text) (keys : List Text)
  deriving Repr, DecidableEq, Inhabited

/-- How the service behaves: which requests fail, and which keys it keeps when told to delete them,
with its reason. How it takes a deletion may depend on the requests made before. -/
structure Behaviour where
  put : (key : Text) → Option Trouble
  list : (root : Text) → Option Trouble
  delete : (earlier : List Request) → (keys : List Text) → Option Trouble
  keep : (earlier : List Request) → (key : Text) → Option Text

/-- A service that does all it is asked for. -/
def Behaviour.sound : Behaviour :=
  ⟨fun _ => none, fun _ => none, fun _ _ => none, fun _ _ => none⟩

/-- Why audio could not be stored, listed or deleted. -/
inductive Fault where
  | upload (key : Text) (r : Refusal)
  | listing (root : Text) (r : Refusal)
  | deletion (r : Refusal)
  | kept (count : Nat) (key reason : Text)
  | broken (message : Text)
  deriving Repr, DecidableEq, Inhabited

/-- The wording of a refusal of an operation. -/
def Refusal.message (operation : String) : Refusal → Text
  | .rejected code message =>
    "An error occurred (".toList ++ code ++ ") when calling the ".toList ++ operation.toList ++
      " operation: ".toList ++ message
  | .unspecified => "An unspecified error occurred".toList

def Fault.message : Fault → Text
  | .upload key r =>
    "Upload of ".toList ++ key ++ " failed: ".toList ++ r.message "PutObject"
  | .listing root r =>
    "Listing ".toList ++ root ++ " failed: ".toList ++ r.message "ListObjectsV2"
  | .deletion r => "Delete request failed: ".toList ++ r.message "DeleteObjects"
  | .kept count key reason =>
    Text.digits count ++ " key(s) not deleted, e.g. ".toList ++ key ++ ':' :: ' ' :: reason
  | .broken message => message

/-- The fault of a request that failed. -/
def faultOf (refusal : Refusal → Fault) : Trouble → Fault
  | .refused r => refusal r
  | .broken message => .broken message

end Store

/-- The keys of a bucket, the requests made of it, how its service behaves, and how many keys it
tells at a time. -/
structure Store where
  keys : List Text
  requests : List Store.Request
  behaviour : Store.Behaviour
  pageSize : Nat := 1000
  pageSize_pos : 0 < pageSize

namespace Store

def ofKeys (keys : List Text) : Store := { keys, requests := [], behaviour := .sound, pageSize_pos := Nat.succ_pos 999 }

/-- A step of work with a store. -/
abbrev Action (α : Type) := ExceptT Fault (StateM Store) α

/-- Makes a request, which fails if the service says so. -/
def request (r : Request) (refusal : Refusal → Fault) (trouble : Behaviour → Option Trouble) :
    Action Unit := do
  modify fun s => { s with requests := s.requests ++ [r] }
  match trouble (← get).behaviour with
  | some t => throw (faultOf refusal t)
  | none => return

/-- The media type of audio. -/
def audioType : Text := "audio/mpeg".toList

/-- The keys with one more. -/
def insert (key : Text) (keys : List Text) : List Text :=
  if keys.contains key then keys else keys ++ [key]

/-- Stores a file under a key, and answers the address at which it is published. -/
def upload (l : Layout) (key : Text) (content : List UInt8) (mediaType : Text) : Action Text := do
  request (.put l.bucket key content mediaType) (.upload key) (·.put key)
  modify fun s => { s with keys := insert key s.keys }
  return l.publicUrl key

/-- Keys in pieces of one size; `fuel` bounds how many. -/
def piecesFrom (size : Nat) : (fuel : Nat) → List Text → List (List Text)
  | 0, _ => []
  | fuel + 1, keys =>
    if keys.isEmpty then [] else keys.take size :: piecesFrom size fuel (keys.drop size)

def pieces (size : Nat) (keys : List Text) : List (List Text) := piecesFrom size keys.length keys

/-- The pages in which the service tells the keys that begin with a root, in order. -/
def pages (s : Store) (root : Text) : List (List Text) :=
  pieces s.pageSize (Text.sorted (s.keys.filter (Text.beginsWith · root)))

/-- The keys of audio files that begin with a root, in order. -/
def list (l : Layout) (root : Text) : Action (List Text) := do
  request (.list l.bucket root) (.listing root) (·.list root)
  return ((← get).pages root).flatMap (·.filter (Text.finishesWith · Layout.extension))

/-- How many keys a request may delete. -/
def batchSize : Nat := 1000

/-- Keys in batches, each of which a request deletes. -/
def batches (keys : List Text) : List (List Text) := pieces batchSize keys

/-- Deletes a batch of keys. Keys that the service keeps are a fault; the others are gone
nevertheless. -/
def deleteBatch (l : Layout) (keys : List Text) : Action Nat := do
  let earlier := (← get).requests
  request (.delete l.bucket keys) .deletion (·.delete earlier keys)
  let keep := (← get).behaviour.keep earlier
  modify fun s => { s with keys := s.keys.filter fun k => !(keys.contains k && (keep k).isNone) }
  match keys.filterMap fun k => (keep k).map (k, ·) with
  | [] => return keys.length
  | (key, reason) :: rest => throw (.kept (rest.length + 1) key reason)

/-- Deletes keys, a batch at a time up to the first fault, and answers how many. -/
def delete (l : Layout) (keys : List Text) : Action Nat :=
  (batches keys).foldlM (fun n batch => return n + (← deleteBatch l batch)) 0

end Store
end Narration
