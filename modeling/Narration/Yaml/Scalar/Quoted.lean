import Narration.Entity
import Narration.Yaml.Cursor
import Narration.Yaml.Fault

/-!
# Quoted scalars

Lines of a quoted scalar are folded: a single line break becomes a space, further ones stay, and the
blanks around them are dropped. Between double quotes a backslash escapes.

* `Scalar.emptyLines` : blank lines inside a quoted scalar;
* `Scalar.gap` : blanks and line breaks between words;
* `Scalar.escape` : what a backslash writes;
* `Scalar.quoted` : a whole scalar.
-/

namespace Narration.Yaml.Scalar

/-- The breaks of the blank lines that follow, and the first place after them that is not blank. A
separator of documents may not stand between them. -/
def emptyLines : (fuel : Nat) → Cursor → Except Fault (Text × Cursor)
  | 0, _ => .error .malformed
  | fuel + 1, c =>
    if c.atSeparator then .error .malformed
    else
      let c := c.dropWhile Text.isSpaceOrTab
      match c.lineBreak? with
      | some (x, c) => do
        let (breaks, c) ← emptyLines fuel c
        return (x :: breaks, c)
      | none => .ok ([], c)

/-- What a first line break, followed by the breaks of blank lines, is folded to. -/
def folded (first : Char) (breaks : Text) : Text :=
  (if first ≠ '\n' then [first] else if breaks.isEmpty then [' '] else []) ++ breaks

/-- What the blanks and line breaks here stand for, and the place after them. -/
def gap (c : Cursor) : Except Fault (Text × Cursor) :=
  let (blanks, c) := c.span Text.isSpaceOrTab
  match c.lineBreak? with
  | some (x, c) => do
    let (breaks, c) ← emptyLines (c.rest.length + 1) c
    return (folded x breaks, c)
  | none => .ok (blanks, c)

/-- The character that a letter stands for after a backslash. -/
def letter? : Char → Option Char
  | '0' => some '\x00'
  | 'a' => some '\x07'
  | 'b' => some '\x08'
  | 't' | '\t' => some '\t'
  | 'n' => some '\n'
  | 'v' => some '\x0b'
  | 'f' => some '\x0c'
  | 'r' => some '\r'
  | 'e' => some '\x1b'
  | ' ' => some ' '
  | '"' => some '"'
  | '\\' => some '\\'
  | '/' => some '/'
  | 'N' => some '\x85'
  | '_' => some '\xa0'
  | 'L' => some '\u2028'
  | 'P' => some '\u2029'
  | _ => none

/-- How many hexadecimal digits follow a letter after a backslash. -/
def width? : Char → Option Nat
  | 'x' => some 2
  | 'u' => some 4
  | 'U' => some 8
  | _ => none

/-- The character of a number. -/
def character (code : Nat) : Except Fault Char :=
  if code ≥ 0x110000 then .error (.characterOutOfRange code)
  else .ok (if code.isValidChar then Char.ofNat code else '\uFFFD')

/-- The second half of a pair of numbers that stand for one character, escaped at the front of a text. -/
def lowHalf? : Text → Option Nat
  | '\\' :: 'u' :: t => (Entity.number? 16 4 (t.take 4)).filter fun n => 0xDC00 ≤ n && n < 0xE000
  | _ => none

/-- What a backslash followed by this place writes, and the place after it. A line break that is
escaped writes nothing; a pair of halves writes one character. -/
def escape (c : Cursor) : Except Fault (Text × Cursor) :=
  match c.rest with
  | [] => .error .malformed
  | x :: rest =>
    match letter? x, width? x with
    | some y, _ => .ok ([y], c.next)
    | none, some width => do
      match Entity.number? 16 width (rest.take width) with
      | some code =>
        match if 0xD800 ≤ code ∧ code < 0xDC00 then lowHalf? (rest.drop width) else none with
        | some low =>
          return ([Char.ofNat (0x10000 + (code - 0xD800) * 0x400 + (low - 0xDC00))], c.skip (width + 7))
        | none => return ([← character code], c.skip (width + 1))
      | none => .error .malformed
    | none, none =>
      match c.lineBreak? with
      | some (_, c) => emptyLines (c.rest.length + 1) c
      | none => .error .malformed

/-- The text up to the closing quote, and the place after it; `fuel` bounds how many steps are
taken. -/
def quotedFrom (double : Bool) : (fuel : Nat) → Cursor → Except Fault (Text × Cursor)
  | 0, _ => .error .malformed
  | fuel + 1, c =>
    let quote := if double then '"' else '\''
    match c.rest with
    | [] => .error .malformed
    | x :: rest => do
      if x = quote then
        if !double && rest.head? = some quote then
          let (t, c) ← quotedFrom double fuel (c.skip 2)
          return (quote :: t, c)
        else return ([], c.next)
      else
        let (written, c) ←
          if double && x = '\\' then escape c.next
          else if Text.isSpaceOrTab x || isBreak x then gap c
          else .ok ([x], c.next)
        let (t, c) ← quotedFrom double fuel c
        return (written ++ t, c)

/-- A scalar after its opening quote. -/
def quoted (double : Bool) (c : Cursor) : Except Fault (Text × Cursor) :=
  quotedFrom double (c.rest.length + 1) c

end Narration.Yaml.Scalar
