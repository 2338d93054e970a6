import Narration.Yaml.Token

/-!
# Reading tokens

A mapping's key is known only by the colon after it, so a token that might start a key is kept as a
candidate; once the colon comes, the key token is entered where the candidate stood.

* `Lexer` : the tokens read and what the next one depends on;
* `Lexer.blockEntry`, `Lexer.explicitKey`, `Lexer.mappingValue` : the marks of block collections;
* `Lexer.openFlow`, `Lexer.closeFlow` : the brackets of flow collections;
* `Lexer.scalar`, `Lexer.named` : the contents;
* `Lexer.token` : one token;
* `Lexer.release` : how many tokens no key can be entered before any more;
* `Token.ofText` : all tokens of a document.
-/

namespace Narration.Yaml

/-- A token that may turn out to start a key: how many tokens precede it, whether a colon must
follow, and its place. -/
structure KeyCandidate where
  place : Nat
  required : Bool
  index : Nat
  line : Nat
  column : Nat
  deriving Repr

/-- The tokens read and what the next one depends on. -/
structure Lexer where
  cursor : Cursor
  tokens : Array Token
  /-- The columns of the open block collections, the innermost first. -/
  indents : List Nat
  /-- Whether a key may start here. -/
  keyAllowed : Bool
  candidate : Option KeyCandidate
  /-- The candidates outside the open flow collections, the innermost first. -/
  outer : List (Option KeyCandidate)

namespace Lexer

def start (t : Text) : Lexer := ⟨Cursor.start t, #[], [], true, none, []⟩

def inFlow (l : Lexer) : Bool := !l.outer.isEmpty

/-- The least column of what is inside the innermost block collection. -/
def margin (l : Lexer) : Nat :=
  match l.indents with
  | [] => 0
  | i :: _ => i + 1

def push (l : Lexer) (t : Token) : Lexer := { l with tokens := l.tokens.push t }

def move (l : Lexer) (c : Cursor) : Lexer := { l with cursor := c }

/-- Passes over spaces, comments and line breaks; outside flow collections a key may start on a new
line. -/
def skipBlanksFrom : (fuel : Nat) → Lexer → Lexer
  | 0, l => l
  | fuel + 1, l =>
    let c := l.cursor.dropWhile (· = ' ')
    let c := if c.head? = some '#' then c.dropWhile (!isBreak ·) else c
    match c.lineBreak? with
    | some (_, c) => skipBlanksFrom fuel { l with cursor := c, keyAllowed := l.keyAllowed || !l.inFlow }
    | none => l.move c

def skipBlanks (l : Lexer) : Lexer := skipBlanksFrom (l.cursor.rest.length + 1) l

/-- A key may be 1024 characters long and stands on one line with its colon. -/
def keepsCandidate (c : Cursor) : Option KeyCandidate → Except Fault (Option KeyCandidate)
  | none => .ok none
  | some k =>
    if k.line = c.line ∧ c.index - k.index ≤ 1024 then .ok (some k)
    else if k.required then .error .malformed else .ok none

/-- Drops the candidates that are too far away. -/
def dropStale (l : Lexer) : Except Fault Lexer := do
  return { l with
    candidate := ← keepsCandidate l.cursor l.candidate
    outer := ← l.outer.mapM (keepsCandidate l.cursor) }

/-- Drops the candidate of the innermost collection, which must not be one that needs a colon. -/
def dropCandidate (l : Lexer) : Except Fault Lexer :=
  if l.candidate.any (·.required) then .error .malformed else .ok { l with candidate := none }

/-- Makes what comes next a candidate, if a key may start here. -/
def saveCandidate (l : Lexer) : Except Fault Lexer :=
  if l.keyAllowed then do
    let l ← l.dropCandidate
    let c := l.cursor
    let required := !l.inFlow && l.indents.head? == some c.column
    return { l with candidate := some ⟨l.tokens.size, required, c.index, c.line, c.column⟩ }
  else .ok l

/-- Ends the block collections that are indented further than a column. -/
def unwindTo (tokens : Array Token) (keep : Nat → Bool) : List Nat → Array Token × List Nat
  | [] => (tokens, [])
  | i :: is => if keep i then (tokens, i :: is) else unwindTo (tokens.push .blockEnd) keep is

def unwind (keep : Nat → Bool) (l : Lexer) : Lexer :=
  if l.inFlow then l
  else
    let (tokens, indents) := unwindTo l.tokens keep l.indents
    { l with tokens, indents }

/-- Starts a block collection, its token standing at `place`, if the column is inside the innermost
one. -/
def indentAt (l : Lexer) (column place : Nat) (t : Token) : Lexer :=
  if l.margin ≤ column then
    { l with indents := column :: l.indents, tokens := l.tokens.insertIdxIfInBounds place t }
  else l

/-- A token that ends all block collections and moves on. -/
def documentMark (l : Lexer) (t : Token) (c : Cursor) : Except Fault Lexer := do
  let l ← (l.unwind fun _ => false).dropCandidate
  return { l.push t with cursor := c, keyAllowed := false }

def openFlow (l : Lexer) (t : Token) : Except Fault Lexer := do
  let l ← l.saveCandidate
  return { l.push t with
    cursor := l.cursor.next, keyAllowed := true, candidate := none, outer := l.candidate :: l.outer }

def closeFlow (l : Lexer) (t : Token) : Except Fault Lexer :=
  match l.outer with
  | [] => .error .malformed
  | candidate :: outer => do
    let l ← l.dropCandidate
    return { l.push t with cursor := l.cursor.next, keyAllowed := false, candidate, outer }

def flowEntry (l : Lexer) : Except Fault Lexer := do
  let l ← l.dropCandidate
  return { l.push .flowEntry with cursor := l.cursor.next, keyAllowed := true }

/-- Outside flow collections, refuses what only a place for a key may hold and starts a block
collection. -/
def blockMark (l : Lexer) (t : Token) : Except Fault Lexer :=
  if l.inFlow then .ok l
  else if !l.keyAllowed then .error .malformed
  else .ok (l.indentAt l.cursor.column l.tokens.size t)

def blockEntry (l : Lexer) : Except Fault Lexer := do
  let l ← (← l.blockMark .blockSequenceStart).dropCandidate
  return { l.push .blockEntry with cursor := l.cursor.next, keyAllowed := true }

def explicitKey (l : Lexer) : Except Fault Lexer := do
  let l ← (← l.blockMark .blockMappingStart).dropCandidate
  return { l.push .key with cursor := l.cursor.next, keyAllowed := !l.inFlow }

/-- A colon: the candidate becomes a key, or the key is empty. -/
def mappingValue (l : Lexer) : Except Fault Lexer := do
  let l ← match l.candidate with
    | some k =>
      let l := { l with
        candidate := none, keyAllowed := false, tokens := l.tokens.insertIdxIfInBounds k.place .key }
      pure (if l.inFlow then l else l.indentAt k.column k.place .blockMappingStart)
    | none =>
      let l ← (← l.blockMark .blockMappingStart).dropCandidate
      pure { l with keyAllowed := !l.inFlow }
  return (l.push .value).move l.cursor.next

/-- An anchor, an alias or a tag. -/
def named (l : Lexer) (read : Option (Token × Cursor)) : Except Fault Lexer := do
  let l ← l.saveCandidate
  let some (t, c) := read | throw .malformed
  return { l.push t with cursor := c, keyAllowed := false }

def blockScalar (l : Lexer) (folding : Bool) : Except Fault Lexer := do
  let l ← l.dropCandidate
  let (t, c) ← Scalar.block folding l.margin l.cursor.next
  return { l.push (.scalar t false) with cursor := c, keyAllowed := true }

def quotedScalar (l : Lexer) (double : Bool) : Except Fault Lexer := do
  let l ← l.saveCandidate
  let (t, c) ← Scalar.quoted double l.cursor.next
  return { l.push (.scalar t false) with cursor := c, keyAllowed := false }

def plainScalar (l : Lexer) : Except Fault Lexer := do
  let l ← l.saveCandidate
  let (t, c, crossed) := Scalar.plain l.inFlow l.margin l.cursor
  return { l.push (.scalar t true) with cursor := c, keyAllowed := crossed }

/-- Whether a plain scalar can start with a character, the one after it being given. -/
def startsPlain (inFlow : Bool) (c : Char) (next : Option Char) : Bool :=
  !(endsWord (some c) || "-?:,[]\x7b\x7d#&*!|>'\"%@`".toList.contains c) ||
    (!endsWord next && (c == '-' || (!inFlow && (c == '?' || c == ':'))))

/-- The token at the cursor. -/
def token (l : Lexer) (c : Char) : Except Fault Lexer :=
  let next := l.cursor.peek? 1
  let first := l.cursor.column == 0
  if first && c == '%' then
    match Token.directive? l.cursor.next with
    | some (t, after) => l.documentMark t after
    | none => .error .malformed
  else if first && l.cursor.atSeparator then
    l.documentMark (if c = '-' then .documentStart else .documentEnd) (l.cursor.skip 3)
  else match c with
    | '[' => l.openFlow .flowSequenceStart
    | '\x7b' => l.openFlow .flowMappingStart
    | ']' => l.closeFlow .flowSequenceEnd
    | '\x7d' => l.closeFlow .flowMappingEnd
    | ',' => l.flowEntry
    | '*' => l.named ((Token.name? l.cursor.next).map fun (name, c) => (.alias name, c))
    | '&' => l.named ((Token.name? l.cursor.next).map fun (name, c) => (.anchor name, c))
    | '!' => l.named (Token.tag? l.cursor)
    | '\'' => l.quotedScalar false
    | '"' => l.quotedScalar true
    | _ =>
      if c == '-' && endsWord next then l.blockEntry
      else if c == '?' && (l.inFlow || endsWord next) then l.explicitKey
      else if c == ':' && (l.inFlow || endsWord next) then l.mappingValue
      else if c == '|' && !l.inFlow then l.blockScalar false
      else if c == '>' && !l.inFlow then l.blockScalar true
      else if startsPlain l.inFlow c next then l.plainScalar
      else .error .malformed

/-- One more token, or all that is left to say at the end. -/
def step (l : Lexer) : Except Fault (Lexer × Bool) := do
  let l ← l.skipBlanks.dropStale
  match l.cursor.head? with
  | none => return (← (l.unwind fun _ => false).dropCandidate, true)
  | some c => return (← (l.unwind (· ≤ l.cursor.column)).token c, false)

/-- The first place that a candidate keeps open. -/
def openPlace? (l : Lexer) : Option Nat :=
  ((l.candidate :: l.outer).filterMap fun k => k.map KeyCandidate.place).min?

/-- How many tokens are settled: no key can be entered before them any more. -/
def release (l : Lexer) (released : Nat) : Nat :=
  match l.dropStale with
  | .error _ => released
  | .ok l => max released ((l.openPlace?).getD l.tokens.size)

/-- Reads tokens to the end; `fuel` bounds how many. A fault of the text comes after the tokens that
were settled before it. -/
def run : (fuel released : Nat) → Lexer → Except Fault (List Token × Option Fault)
  | 0, _, _ => .error .malformed
  | fuel + 1, released, l =>
    match l.step with
    | .error .malformed => .error .malformed
    | .error f => .ok (l.tokens.toList.take released, some f)
    | .ok (l, true) => .ok (l.tokens.toList, none)
    | .ok (l, false) => run fuel (l.release released) l

end Lexer

/-- The characters that a document may hold. -/
def isAllowed (c : Char) : Bool :=
  let n := c.toNat
  c == '\t' || c == '\n' || c == '\r' || (0x20 ≤ n && n ≤ 0x7E) || n == 0x85 ||
    (0xA0 ≤ n && n ≤ 0xFFFD) || 0x10000 ≤ n

/-- All tokens of a text, or those before a fault other than being malformed. -/
def Token.ofText (t : Text) : Except Fault (List Token × Option Fault) :=
  if t.all isAllowed then Lexer.run (t.length + 1) 0 (Lexer.start t) else .error .malformed

end Narration.Yaml
