import Narration.Path
import Narration.Text.Case

/-!
# Slugs

* `Slug.Fault` : a path without a name;
* `Slug.ofPath` : what the audio of a document is filed under.
-/

namespace Narration.Slug

/-- The path, in its shortest form, of what has no name. -/
structure Fault where
  path : Text
  deriving Repr, DecidableEq, Inhabited

def Fault.message (f : Fault) : Text :=
  "PurePosixPath(".toList ++ Text.quoted f.path ++ ") has an empty name".toList

/-- The root that a path starts at: two slashes count apart from one, but three do not. -/
def root (path : Text) : Text :=
  match path with
  | '/' :: '/' :: '/' :: _ => ['/']
  | '/' :: '/' :: _ => ['/', '/']
  | '/' :: _ => ['/']
  | _ => []

/-- A name without what follows its last point; a point at either end sets nothing off. -/
def withoutExtension (name : Text) : Text :=
  match Text.findLast? name '.' with
  | some i => if 0 < i ∧ i + 1 < name.length then name.take i else name
  | none => name

/-- The last two segments of a path in small letters with a hyphen between them, the extension
dropped. Backslashes count as slashes, and a root of two slashes as a segment. -/
def ofPath (path : Text) : Except Fault Text :=
  let path := path.map fun c => if c = '\\' then '/' else c
  let segments := Path.segments path
  match segments.getLast? with
  | none => .error ⟨if (root path).isEmpty then ['.'] else root path⟩
  | some name =>
    let parts := root path :: segments.dropLast ++ [withoutExtension name]
    let parts := parts.filter fun s => !(s = [] || s = ['.'] || s = ['/'])
    .ok (Text.lower (Text.join ['-'] (parts.drop (parts.length - 2))))

end Narration.Slug
