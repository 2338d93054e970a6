import Narration.Path

/-!
# Files

The files below a working directory.

* `Files` : which paths have which entries;
* `Files.Fault` : why a file cannot be opened;
* `Files.resolve` : the segments that a path leads to;
* `Files.isFile`, `Files.isDirectory`, `Files.doesExist` : what a path leads to;
* `Files.read`, `Files.write` : the content of a file;
* `Files.names` : the names in a directory.
-/

namespace Narration

/-- What a path may lead to. -/
inductive Entry where
  | file (content : List UInt8)
  | directory
  deriving Repr, DecidableEq, Inhabited

/-- The files below a working directory, by the segments of their paths; what an entry lies in is a
directory. -/
structure Files where
  entries : List (List Text × Entry)
  deriving Repr, DecidableEq, Inhabited

namespace Files

/-- Why a file cannot be opened. -/
inductive Cause where
  | notFound
  | notDirectory
  | isDirectory
  deriving Repr, DecidableEq, Inhabited

/-- Why a path cannot be opened as a file. -/
structure Fault where
  cause : Cause
  path : Text
  deriving Repr, DecidableEq, Inhabited

def Cause.message : Cause → Text
  | .notFound => "[Errno 2] No such file or directory".toList
  | .notDirectory => "[Errno 20] Not a directory".toList
  | .isDirectory => "[Errno 21] Is a directory".toList

def Fault.message (f : Fault) : Text := f.cause.message ++ ':' :: ' ' :: Text.quoted f.path

def empty : Files := ⟨[]⟩

/-- Whether something lies in a directory. -/
def holds (f : Files) (segments : List Text) : Bool :=
  f.entries.any fun (path, _) => segments.length < path.length && segments.isPrefixOf path

/-- What segments lead to. -/
def entry? (f : Files) (segments : List Text) : Option Entry :=
  if segments.isEmpty || f.holds segments then some .directory else f.entries.lookup segments

/-- Takes one more step from a place, which must be a directory. A step back from the working
directory leads nowhere. -/
def step (f : Files) (place : List Text) (segment : Text) : Except Cause (List Text) :=
  match f.entry? place with
  | none => .error .notFound
  | some (.file _) => .error .notDirectory
  | some .directory =>
    if segment.isEmpty || segment = ['.'] then .ok place
    else if segment = Path.up then if place.isEmpty then .error .notFound else .ok place.dropLast
    else .ok (place ++ [segment])

/-- The segments that a path leads to; nothing need be there. A path from the root leads nowhere. -/
def resolve (f : Files) (path : Text) : Except Cause (List Text) :=
  if path.isEmpty || path.head? = some '/' then .error .notFound
  else (Text.splitOn '/' path).foldlM f.step []

/-- What a path leads to. -/
def at? (f : Files) (path : Text) : Option Entry := (f.resolve path).toOption.bind f.entry?

def doesExist (f : Files) (path : Text) : Bool := (f.at? path).isSome

def isDirectory (f : Files) (path : Text) : Bool := f.at? path == some .directory

def isFile (f : Files) (path : Text) : Bool :=
  match f.at? path with
  | some (.file _) => true
  | _ => false

/-- The content of a file. -/
def read (f : Files) (path : Text) : Except Fault (List UInt8) :=
  match f.resolve path with
  | .error cause => .error ⟨cause, path⟩
  | .ok segments =>
    match f.entry? segments with
    | some (.file content) => .ok content
    | some .directory => .error ⟨.isDirectory, path⟩
    | none => .error ⟨.notFound, path⟩

/-- The files with an entry put in place of whatever had its path. -/
def put (f : Files) (segments : List Text) (e : Entry) : Files :=
  if f.entries.any (·.1 = segments) then
    ⟨f.entries.map fun (path, old) => (path, if path = segments then e else old)⟩
  else ⟨f.entries ++ [(segments, e)]⟩

/-- The files without what is at some segments and below. The directory that it lay in stays. -/
def delete (f : Files) (segments : List Text) : Files :=
  let rest : Files := ⟨f.entries.filter fun (path, _) => !segments.isPrefixOf path⟩
  if (rest.entry? segments.dropLast).isSome then rest else rest.put segments.dropLast .directory

/-- Writes a file; the directory that it lies in must be there. -/
def write (f : Files) (path : Text) (content : List UInt8) : Except Fault Files :=
  match f.resolve path with
  | .error cause => .error ⟨cause, path⟩
  | .ok segments =>
    if f.entry? segments = some .directory then .error ⟨.isDirectory, path⟩
    else if f.entry? segments.dropLast ≠ some .directory then .error ⟨.notFound, path⟩
    else .ok (f.put segments (.file content))

/-- The names in a directory, each once. -/
def names (f : Files) (segments : List Text) : List Text :=
  (f.entries.filterMap fun (path, _) =>
    if segments.isPrefixOf path then path[segments.length]? else none).eraseDups

end Files
end Narration
