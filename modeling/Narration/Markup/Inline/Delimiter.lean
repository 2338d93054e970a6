import Narration.Markup.Inline.Token
import Narration.Text.Punctuation

/-!
# Delimiter runs

Runs of `*`, `_` and `~` open and close spans. Each mark of a run is entered as a text token and a
delimiter; afterwards closers find their openers and the tokens of both are turned into marks.

* `Flanks.of` : whether a run may open or close, by the characters beside it;
* `Delimiter.pair` : every closer joined to the nearest opener that fits;
* `Delimiter.markStrikes`, `Delimiter.markEmphasis` : the tokens of joined delimiters turned into
  marks.
-/

namespace Narration.Markup

/-- Blanks in the sense of inline markup. -/
def isInlineBlank (c : Char) : Bool :=
  let n := c.toNat
  (9 ≤ n && n ≤ 13) || n == 0x20 || n == 0xA0 || n == 0x1680 || (0x2000 ≤ n && n ≤ 0x200A) ||
    n == 0x202F || n == 0x205F || n == 0x3000

/-- What a delimiter run may do. -/
structure Flanks where
  canOpen : Bool
  canClose : Bool
  deriving Repr, DecidableEq, Inhabited

/-- A run opens where text follows and closes where text precedes; within a word only a run that may
split words does either. -/
def Flanks.of (before after : Char) (splitsWords : Bool) : Flanks :=
  let blankBefore := isInlineBlank before
  let blankAfter := isInlineBlank after
  let markBefore := Text.isPunctuation before
  let markAfter := Text.isPunctuation after
  let left := !(blankAfter || (markAfter && !(blankBefore || markBefore)))
  let right := !(blankBefore || (markBefore && !(blankAfter || markAfter)))
  ⟨left && (splitsWords || !right || markBefore), right && (splitsWords || !left || markAfter)⟩

/-- One mark of a run: its character, the length of the run (zero when the lengths do not matter),
its token, what it may do, and the closer it was joined to. -/
structure Delimiter where
  marker : Char
  length : Nat
  token : Nat
  canOpen : Bool
  canClose : Bool
  closer : Option Nat
  deriving Repr, DecidableEq, Inhabited

namespace Delimiter

/-- The state of pairing. `jumps` tells for each delimiter seen how many before it can be passed
over; `bottoms` how far down a search of its kind has failed; `header` is the first delimiter of the
current run and `lastToken` the token before. -/
structure Pairing where
  delimiters : Array Delimiter
  jumps : Array Nat
  bottoms : List ((Char × Bool × Nat) × Nat)
  header : Nat
  lastToken : Option Nat

/-- Whether the lengths of two runs forbid joining them: a run that may open and close joins only
when the lengths do not add up to a multiple of three, unless both are such multiples. -/
def lengthsForbid (opener closer : Delimiter) : Bool :=
  (opener.canClose || closer.canOpen) && (opener.length + closer.length) % 3 == 0 &&
    (opener.length % 3 != 0 || closer.length % 3 != 0)

/-- Searches downwards for an opener among the first `upper` delimiters, but not among the first
`bottom`. -/
def Pairing.opener? (p : Pairing) (closer : Delimiter) (bottom : Nat) :
    (fuel : Nat) → (upper : Nat) → Option Nat
  | 0, _ => none
  | fuel + 1, upper =>
    if upper ≤ bottom then none
    else
      let i := upper - 1
      let opener := p.delimiters[i]!
      if opener.marker = closer.marker && opener.canOpen && opener.closer.isNone &&
          !lengthsForbid opener closer then some i
      else p.opener? closer bottom fuel (i - p.jumps[i]!)

/-- Joins the opener `i` to the closer `j`. -/
def Pairing.join (p : Pairing) (i j : Nat) : Pairing :=
  let passed := if 0 < i && !(p.delimiters[i - 1]!).canOpen then p.jumps[i - 1]! + 1 else 0
  { p with
    delimiters := (p.delimiters.modify j ({ · with canOpen := false })).modify i
      ({ · with closer := some j, canClose := false })
    jumps := (p.jumps.set! j (j - i + passed)).set! i passed
    lastToken := none }

/-- Treats the delimiter `j` as a closer. -/
def Pairing.visit (p : Pairing) (j : Nat) : Pairing :=
  let closer := p.delimiters[j]!
  let sameRun := (p.delimiters[p.header]!).marker = closer.marker &&
    p.lastToken.map (· + 1) = some closer.token
  let p := { p with
    jumps := p.jumps.push 0
    header := if sameRun then p.header else j
    lastToken := some closer.token }
  if !closer.canClose then p
  else
    let kind := (closer.marker, closer.canOpen, closer.length % 3)
    let upper := p.header - p.jumps[p.header]!
    match p.opener? closer ((p.bottoms.lookup kind).getD 0) (upper + 1) upper with
    | some i => p.join i j
    | none => if upper = 0 then p else { p with bottoms := (kind, upper) :: p.bottoms }

/-- Joins closers to openers. -/
def pair (delimiters : Array Delimiter) : Array Delimiter :=
  ((List.range delimiters.size).foldl Pairing.visit ⟨delimiters, #[], [], 0, none⟩).delimiters

/-- Whether a token is a lone tilde. -/
def isLoneTilde : InlineToken → Bool
  | .text ['~'] => true
  | _ => false

def isStrikeEnd : InlineToken → Bool
  | .closing .strike => true
  | _ => false

/-- Moves the token `i` behind the ends of strikes that follow it. -/
def moveBehindEnds (tokens : Array InlineToken) (i : Nat) : Array InlineToken :=
  let j := i + ((tokens.toList.drop (i + 1)).takeWhile isStrikeEnd).length
  if j = i then tokens else (tokens.set! i tokens[j]!).set! j tokens[i]!

/-- The tokens of joined tildes become marks. A lone tilde before the end of a strike, left over from
an odd run, moves behind it. -/
def markStrikes (delimiters : Array Delimiter) (tokens : Array InlineToken) : Array InlineToken :=
  let (tokens, lone) := delimiters.foldl (fun (tokens, lone) d =>
    match d.marker, d.closer with
    | '~', some j =>
      let last := (delimiters[j]!).token
      let tokens := (tokens.set! d.token (.opening .strike)).set! last (.closing .strike)
      (tokens, if isLoneTilde tokens[last - 1]! then (last - 1) :: lone else lone)
    | _, _ => (tokens, lone)) (tokens, [])
  lone.foldl moveBehindEnds tokens

/-- The tokens of the joined delimiters among the first `n` become marks, from the last to the first;
two adjacent pairs make one strong span, whose inner tokens carry the mark. With `skip` the last
delimiter belongs to a span that is marked already. -/
def markEmphasis (delimiters : Array Delimiter) :
    (n : Nat) → (skip : Bool) → Array InlineToken → Array InlineToken
  | 0, _, tokens => tokens
  | i + 1, true, tokens => markEmphasis delimiters i false tokens
  | i + 1, false, tokens =>
    let opener := delimiters[i]!
    match opener.closer with
    | none => markEmphasis delimiters i false tokens
    | some j =>
      if opener.marker ≠ '*' && opener.marker ≠ '_' then markEmphasis delimiters i false tokens
      else
        let closer := delimiters[j]!
        let outer := delimiters[i - 1]!
        let strong := 0 < i && outer.closer = some (j + 1) && outer.marker = opener.marker &&
          outer.token + 1 = opener.token && (delimiters[j + 1]!).token = closer.token + 1
        let mark := if strong then Mark.strong else Mark.emphasis
        let tokens := (tokens.set! opener.token (.opening mark)).set! closer.token (.closing mark)
        let tokens :=
          if strong then
            (tokens.set! outer.token (.text [])).set! (delimiters[j + 1]!).token (.text [])
          else tokens
        markEmphasis delimiters i strong tokens

end Delimiter
end Narration.Markup
