import Narration.Storage.Slug
import Narration.Url.Address

/-!
# Where audio is kept

* `Layout` : where a run keeps and publishes audio;
* `Layout.root` : what the keys of a run begin with;
* `Layout.keyFor?` : the key of the audio of a document in a voice;
* `Layout.publicUrl` : the address of a key;
* `Layout.keyOfUrl` : the key of an address.
-/

namespace Narration

/-- Where a run keeps audio in a bucket and under which address that is published. -/
structure Layout where
  bucket : Text
  publicBase : Text
  folder : Text
  branch : Option Text
  deriving Repr, DecidableEq, Inhabited

namespace Layout

/-- A layout without slashes at the end of its address and around its folder. -/
def new (bucket publicBase folder : Text) (branch : Option Text) : Layout :=
  ⟨bucket, Text.dropEndWhile (· = '/') publicBase,
    Text.dropEndWhile (· = '/') (folder.dropWhile (· = '/')), branch⟩

/-- What the keys of a run begin with: folder and branch, each with a slash. -/
def root (l : Layout) : Text :=
  Text.join ['/'] ([l.folder, l.branch.getD []].filter (!·.isEmpty)) ++ ['/']

/-- What the names of audio files end with. -/
def extension : Text := ".mp3".toList

/-- The key of the audio of a document in a voice. -/
def keyFor? (l : Layout) (path voiceId : Text) : Except Slug.Fault Text := do
  return l.root ++ (← Slug.ofPath path) ++ '/' :: voiceId ++ extension

/-- The address at which a key is published. -/
def publicUrl (l : Layout) (key : Text) : Text := l.publicBase ++ '/' :: key

/-- The key of an address: what follows the public address, or else the path. -/
def keyOfUrl (l : Layout) (url : Text) : Except Address.Fault Text :=
  match if l.publicBase.isEmpty then none else Text.after? (l.publicBase ++ ['/']) url with
  | some key => .ok key
  | none => return (← Address.path url).dropWhile (· = '/')

end Layout
end Narration
