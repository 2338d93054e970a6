import Narration.Files.Glob
import Narration.Text.Blank
import Narration.Text.Lines
import Narration.Text.Utf8

/-!
# Documents

* `Documents.Fault` : why a file of text cannot be read;
* `Documents.defaultPattern` : which documents are narrated unless other ones are asked for;
* `Documents.ignored` : the patterns of what is never narrated in a directory;
* `Documents.isIgnored` : whether patterns exclude a path;
* `Documents.find` : the documents of a directory;
* `Documents.read` : the text of a document.
-/

namespace Narration.Documents

/-- Why a file of text cannot be read. -/
inductive Fault where
  | file (f : Files.Fault)
  | encoding (f : Utf8.Fault)
  deriving Repr, DecidableEq

def Fault.message : Fault → Text
  | .file f => f.message
  | .encoding f => f.message.toList

/-- The documents that are narrated unless other ones are asked for. -/
def defaultPattern : Text := "**/*.mdx".toList

/-- What is never narrated. -/
def defaultIgnored : List Text :=
  ["node_modules/**", "dist/**", ".git/**", "snippets/**"].map String.toList

/-- The name of the file with more patterns of what is not narrated. -/
def ignoreFile : Text := ".speakignore".toList

/-- The patterns in a file: its lines without blanks around them, save blank ones and comments. -/
def patterns (t : Text) : List Text :=
  ((Text.lines (Text.anyNewlineToLf t)).map Text.trim).filter fun p =>
    !p.isEmpty && p.head? != some '#'

/-- The patterns of what is never narrated in a directory. -/
def ignored (f : Files) (directory : Text) : Except Fault (List Text) :=
  let path := Path.join directory ignoreFile
  if f.doesExist path then do
    let bytes ← (f.read path).mapError .file
    let t ← (Utf8.decodeStream bytes).mapError .encoding
    return defaultIgnored ++ patterns t
  else .ok defaultIgnored

/-- Whether patterns exclude a path. -/
def isIgnored (path : Text) (patterns : List Text) : Bool := patterns.any (Wildcard.accepts · path)

/-- The documents of a directory that a pattern stands for, as seen from there and in order. -/
def find (f : Files) (directory pattern : Text) (ignored : List Text) : List Text :=
  let found := (Glob.paths f (Path.join directory pattern)).filter f.isFile
  let found := found.map (Path.relative · directory)
  Text.sorted (found.filter (!isIgnored · ignored))

/-- The text of a document. -/
def read (f : Files) (directory path : Text) : Except Fault Text := do
  let bytes ← (f.read (Path.join directory path)).mapError .file
  (Utf8.decode bytes).mapError .encoding

/-- The files with the text of a document written. -/
def write (f : Files) (directory path t : Text) : Except Fault Files :=
  (f.write (Path.join directory path) (Utf8.encode t)).mapError .file

end Narration.Documents
