import Narration.Markup.Closing
import Narration.Markup.Inline
import Narration.Markup.Stretch
import Narration.Text.Digit

/-!
# Inline content of a document

Components and expressions are lifted out of a stretch before the rest is read as inline content; a
placeholder, the number of the lifted node between two private characters, keeps the place of each.

* `Content.lift` : the stretch with placeholders, and the nodes lifted;
* `Content.settle` : a text cut at its placeholders, the nodes put back;
* `Content.nodesOf` : the nodes that inline tokens make;
* `Content.read` : the nodes of a stretch.
-/

namespace Narration.Markup.Content

/-- The character before the number of a lifted node. -/
def openPlace : Char := Char.ofNat 0xE000

/-- The character after the number of a lifted node. -/
def closePlace : Char := Char.ofNat 0xE001

/-- The mark that a lifted node leaves. -/
def placeholder (n : Nat) : Text := openPlace :: Text.digits n ++ [closePlace]

/-- The length up to the end of the first backtick run of exactly `run` marks. -/
def closingRun? (run : Nat) : (fuel : Nat) → Text → Option Nat
  | 0, _ => none
  | fuel + 1, t =>
    let gap := (t.takeWhile (· ≠ '\x60')).length
    let found := ((t.drop gap).takeWhile (· = '\x60')).length
    if found = 0 then none
    else if found = run then some (gap + found)
    else (closingRun? run fuel (t.drop (gap + found))).map (· + (gap + found))

/-- The length of a code span at the front, or of its opening run when nothing closes it. -/
def codeLength (t : Text) : Nat :=
  let run := (t.takeWhile (· = '\x60')).length
  run + (closingRun? run t.length (t.drop run)).getD 0

/-- The component or raw node of a tag in inline content, and the offset after it. A tag that nothing
closes stands alone. -/
def ofTag (scope : Scope) (inner : Stretch → Except Fault (List Node)) (s : Stretch) (tag : Tag) :
    Except Fault (Node × Nat) := do
  let raw := s.till tag.stop
  if tag.closing then return (scope.node (.raw raw.chars) tag.start tag.stop, tag.stop)
  else
    let kind := Kind.component tag.name tag.attributes
    let after := s.since tag.stop
    match if tag.selfClosing then none else Closing.find? tag.name after.start after.chars with
    | none => return (scope.node kind tag.start tag.stop, tag.stop)
    | some (first, stop) =>
      return (scope.node kind tag.start stop (← inner (after.till first)), stop)

/-- The characters at which something may stand that is not plain text. -/
def isSpecial (c : Char) : Bool := c == '\\' || c == '\x60' || c == '\x7b' || c == '<'

/-- What stands at the front of a stretch: the node to lift, if any, and the number of characters
that belong together. -/
def front (scope : Scope) (inner : Stretch → Except Fault (List Node)) (s : Stretch) :
    Except Fault (Option Node × Nat) :=
  match s.chars with
  | '\\' :: _ => .ok (none, 2)
  | '\x60' :: _ => .ok (none, codeLength s.chars)
  | '\x7b' :: _ =>
    match Tag.braced? s.chars with
    | some (source, length) =>
      .ok (some (scope.node (.expression source) s.start (s.start + length)), length)
    | none => .ok (none, 1)
  | '<' :: _ =>
    match Tag.read? s.start s.chars with
    | some tag => do
      let (node, stop) ← ofTag scope inner s tag
      return (some node, stop - s.start)
    | none => .ok (none, 1)
  | chars => .ok (none, (chars.takeWhile (!isSpecial ·)).length)

/-- The text of a stretch with placeholders numbered from `n`, and the nodes lifted out of it. -/
def lift (scope : Scope) (inner : Stretch → Except Fault (List Node)) :
    (fuel : Nat) → (n : Nat) → Stretch → Except Fault (Text × List Node)
  | 0, _, _ => .ok ([], [])
  | fuel + 1, n, s =>
    if s.chars.isEmpty then .ok ([], [])
    else do
      match ← front scope inner s with
      | (some node, length) =>
        let (source, nodes) ← lift scope inner fuel (n + 1) (s.drop length)
        return (placeholder n ++ source, node :: nodes)
      | (none, length) =>
        let (source, nodes) ← lift scope inner fuel n (s.drop length)
        return (s.chars.take length ++ source, nodes)

/-- How many digits a number may have to be converted. -/
def maxDigits : Nat := 4300

/-- The digits of a placeholder at the front of a text. -/
def placeholderDigits? : Text → Option Text
  | c :: t =>
    let digits := t.takeWhile Text.isDigit
    if c = openPlace && !digits.isEmpty && (t.drop digits.length).head? = some closePlace then
      some digits
    else none
  | [] => none

/-- A part of a text with placeholders. -/
inductive Part where
  | text (value : Text)
  | placeholder (number : Nat)
  deriving Repr, DecidableEq, Inhabited

/-- A text part, unless it is empty; the text is given reversed. -/
def textPart (reversed : Text) : List Part :=
  if reversed.isEmpty then [] else [.text reversed.reverse]

/-- Cuts a text at its placeholders. `before` is the text since the last placeholder, reversed; the
first `skip` characters belong to that placeholder. -/
def partsFrom : (skip : Nat) → (before : Text) → Text → Except Fault (List Part)
  | _, before, [] => .ok (textPart before)
  | skip + 1, before, _ :: t => partsFrom skip before t
  | 0, before, c :: t =>
    match placeholderDigits? (c :: t) with
    | none => partsFrom 0 (c :: before) t
    | some digits =>
      if digits.length > maxDigits then .error (.tooManyDigits digits.length)
      else do
        let part := (Text.decimal? digits).map Part.placeholder
        return textPart before ++ part.toList ++ (← partsFrom (digits.length + 1) [] t)

/-- The texts and placeholders of a text. -/
def parts (t : Text) : Except Fault (List Part) := partsFrom 0 [] t

/-- The node of a part; a number of no node leaves nothing. -/
def Part.node? (lifted : List Node) : Part → Option Node
  | text value => some (.leaf (.text value))
  | placeholder number => lifted[number]?

/-- The text and the lifted nodes of a text with placeholders. -/
def settle (lifted : List Node) (t : Text) : Except Fault (List Node) :=
  return (← parts t).filterMap (Part.node? lifted)

/-- The nodes of the innermost open mark, reversed, and those of the marks around it. -/
structure Open where
  nodes : List Node
  outer : List (Mark × List Node)

namespace Open

def empty : Open := ⟨[], []⟩

def add (o : Open) (nodes : List Node) : Open := { o with nodes := nodes.reverse ++ o.nodes }

/-- The kind of node that a mark makes. -/
def kindOf : Mark → Kind
  | .emphasis => .emphasis
  | .strong => .strong
  | .strike => .strike
  | .link target => .link target

def enter (o : Open) (mark : Mark) : Open := ⟨[], (mark, o.nodes) :: o.outer⟩

/-- Ends the innermost mark; without an open mark nothing happens. -/
def leave (o : Open) : Open :=
  match o.outer with
  | [] => o
  | (mark, nodes) :: outer => ⟨.mk (kindOf mark) o.nodes.reverse none :: nodes, outer⟩

/-- All nodes, the marks that are open ending here. -/
def close (o : Open) : List Node :=
  (o.outer.foldl (fun nodes (mark, before) => .mk (kindOf mark) nodes.reverse none :: before)
    o.nodes).reverse

end Open

mutual

/-- Adds what a token makes. -/
def addToken (lifted : List Node) : InlineToken → Open → Except Fault Open
  | .text value, o => do return o.add (← settle lifted value)
  | .special value, o => do return o.add (← settle lifted value)
  | .lineBreak, o => .ok (o.add [.leaf .lineBreak])
  | .code value, o => .ok (o.add [.leaf (.inlineCode value)])
  | .image target alternative, o => do
    let inner ← addTokens lifted alternative .empty
    return o.add [.mk (.image target) inner.close none]
  | .opening mark, o => .ok (o.enter mark)
  | .closing _, o => .ok o.leave

/-- Adds what some tokens make, in a row. -/
def addTokens (lifted : List Node) : List InlineToken → Open → Except Fault Open
  | [], o => .ok o
  | token :: tokens, o => do addTokens lifted tokens (← addToken lifted token o)

end

/-- The nodes that inline tokens make. -/
def nodesOf (lifted : List Node) (tokens : List InlineToken) : Except Fault (List Node) := do
  return (← addTokens lifted tokens .empty).close

/-! ## Placeholders that a document writes -/

/-- Whether a text may write a placeholder of its own: with the private characters, or with one of the
codes for characters. -/
def mayWritePlaceholders (t : Text) : Bool :=
  t.any (fun c => c = openPlace || c = '&' || c = '%') || Text.has t "xn--".toList

mutual

/-- The placeholders that a token holds. -/
def placeholders : InlineToken → Except Fault (List Part)
  | .text value => parts value
  | .special value => parts value
  | .image _ alternative => placeholdersIn alternative
  | _ => .ok []

/-- The placeholders that some tokens hold. -/
def placeholdersIn : List InlineToken → Except Fault (List Part)
  | [] => .ok []
  | token :: tokens => do return (← placeholders token) ++ (← placeholdersIn tokens)

end

/-- Lifted nodes, each as often as tokens hold its placeholder. -/
def counted (lifted : List Node) (tokens : List InlineToken) : Except Fault (List Node) := do
  let held ← placeholdersIn tokens
  return lifted.mapIdx fun number node => node.repeated (held.count (.placeholder number))

/-- The nodes of a stretch of inline content. A component takes two of the nesting budget. -/
def read (scope : Scope) : (budget : Nat) → Stretch → Except Fault (List Node)
  | budget + 2, s => do
    let (source, lifted) ← lift scope (read scope budget) s.chars.length 0 s
    let tokens ← Inline.tokens scope.references budget source
    let lifted ← if mayWritePlaceholders s.chars then counted lifted tokens else pure lifted
    nodesOf lifted tokens
  | _, _ => .error .nestedTooDeeply

end Narration.Markup.Content
