import Narration.Files
import Narration.Wildcard

/-!
# Paths by wildcards

A pattern is segments with wildcards; the segment of two stars stands for any number of directories.
Hidden names are found only by segments that start with a point.

* `Glob.hasWildcard`, `Glob.isDeep` : kinds of segments;
* `Glob.below` : everything below a directory;
* `Glob.segmentsAt` : what the last segment of a pattern stands for in a directory;
* `Glob.paths` : the paths that a pattern stands for.
-/

namespace Narration.Glob

def hasWildcard (t : Text) : Bool := t.any fun c => c == '*' || c == '?' || c == '['

/-- The segment that stands for any number of directories. -/
def isDeep (segment : Text) : Bool := segment = ['*', '*']

def isHidden (name : Text) : Bool := name.head? = some '.'

/-- A path inside a directory; either may be empty. -/
def inside (directory name : Text) : Text :=
  if directory.isEmpty then name else if name.isEmpty then directory else Path.join directory name

/-- The names in a directory, perhaps only those of directories. -/
def listed (f : Files) (directory : Text) (directoriesOnly : Bool) : List Text :=
  match f.resolve (if directory.isEmpty then ['.'] else directory) with
  | .error _ => []
  | .ok segments =>
    if f.entry? segments = some .directory then
      (f.names segments).filter fun name =>
        !directoriesOnly || f.entry? (segments ++ [name]) == some .directory
    else []

/-- Everything below a directory that is not hidden, as seen from there; `fuel` bounds the depth. -/
def below (f : Files) (directoriesOnly : Bool) : (fuel : Nat) → (directory : Text) → List Text
  | 0, _ => []
  | fuel + 1, directory =>
    ((listed f directory directoriesOnly).filter (!isHidden ·)).flatMap fun name =>
      name :: (below f directoriesOnly fuel (inside directory name)).map (inside name)

/-- A number that no depth exceeds. -/
def depth (f : Files) : Nat := f.entries.foldl (fun n e => max n e.1.length) 0 + 1

/-- What one segment of a pattern stands for in a directory. -/
def segmentsAt (f : Files) (directory segment : Text) (directoriesOnly : Bool) : List Text :=
  if !hasWildcard segment then
    let found :=
      if segment.isEmpty then f.isDirectory directory else f.doesExist (inside directory segment)
    if found then [segment] else []
  else if isDeep segment then [] :: below f directoriesOnly (depth f) directory
  else
    ((listed f directory directoriesOnly).filter fun name => isHidden segment || !isHidden name).filter
      (Wildcard.accepts segment)

/-- The paths that a pattern stands for, perhaps only those of directories. A path that can be reached
in several ways comes several times. `fuel` bounds the number of segments. -/
def pathsFrom (f : Files) : (fuel : Nat) → (directoriesOnly : Bool) → (pattern : Text) → List Text
  | 0, _, _ => []
  | fuel + 1, directoriesOnly, pattern =>
    let (directory, segment) := Path.cutLast pattern
    if !hasWildcard pattern then
      let found := if segment.isEmpty then f.isDirectory directory else f.doesExist pattern
      if found then [pattern] else []
    else if directory.isEmpty then segmentsAt f [] segment directoriesOnly
    else
      let directories :=
        if hasWildcard directory then pathsFrom f fuel true directory else [directory]
      directories.flatMap fun d =>
        (segmentsAt f d segment directoriesOnly).map (Path.join d)

/-- The paths that a pattern stands for. -/
def paths (f : Files) (pattern : Text) : List Text := pathsFrom f (pattern.length + 1) false pattern

end Narration.Glob
