import Narration.Text.Quoted

/-!
# Paths

A path is segments with slashes between them.

* `Path.join` : a path inside a directory;
* `Path.cutLast` : a path as its directory and its last segment;
* `Path.segments` : the segments that name something;
* `Path.normal` : the segments after every step back has been taken;
* `Path.relative` : a path as seen from a directory.
-/

namespace Narration.Path

/-- A path inside a directory; one that starts at the root stays. -/
def join (directory path : Text) : Text :=
  if path.head? = some '/' then path
  else if directory.isEmpty || directory.getLast? = some '/' then directory ++ path
  else directory ++ '/' :: path

/-- The directory of a path, without slashes at its end unless it is made of them, and what follows
the last slash. -/
def cutLast (path : Text) : Text × Text :=
  let last := (path.reverse.takeWhile (· ≠ '/')).reverse
  let directory := path.take (path.length - last.length)
  (if directory.all (· = '/') then directory else Text.dropEndWhile (· = '/') directory, last)

/-- The segments that name something. -/
def segments (path : Text) : List Text :=
  (Text.splitOn '/' path).filter fun s => !s.isEmpty && s ≠ ['.']

/-- A segment that steps back to the directory above. -/
def up : Text := ['.', '.']

/-- Enters a segment; stepping back leaves the last one entered, if there is one. The segments entered
are reversed. -/
def enter (entered : List Text) (segment : Text) : List Text :=
  if segment = up then entered.drop 1 else segment :: entered

/-- The segments of a path after every step back has been taken. -/
def normal (path : Text) : List Text := ((segments path).foldl enter []).reverse

/-- The segments without those that two paths begin with alike. -/
def withoutCommon : List Text → List Text → List Text × List Text
  | a :: as, b :: bs => if a = b then withoutCommon as bs else (a :: as, b :: bs)
  | as, bs => (as, bs)

/-- A path as seen from a directory. -/
def relative (path directory : Text) : Text :=
  let (rest, back) := withoutCommon (normal path) (normal directory)
  let segments := back.map (fun _ => up) ++ rest
  if segments.isEmpty then ['.'] else Text.join ['/'] segments

end Narration.Path
