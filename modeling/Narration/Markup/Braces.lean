import Narration.Text.Basic

/-!
# Strings and braces of embedded code

The scanners look at a text from its front and answer how many characters they cover.

* `Braces.stringLength?` : a string literal with its quotes;
* `Braces.commentLength?` : a block comment;
* `Braces.balanced?` : from an opening brace to the brace that closes it, where braces in strings and
  comments do not count.
-/

namespace Narration.Braces

/-- The length of a string literal after its opening quote. A backslash hides the next character;
only a backtick string runs over line ends. -/
def stringTail? (quote : Char) : Text → Option Nat
  | [] => none
  | '\\' :: _ :: t => (stringTail? quote t).map (· + 2)
  | c :: t =>
    if c = '\\' then none
    else if c = quote then some 1
    else if c = '\n' && quote ≠ '\x60' then none
    else (stringTail? quote t).map (· + 1)

/-- Whether a character opens a string literal. -/
def isQuote (c : Char) : Bool := c == '"' || c == '\'' || c == '\x60'

/-- The length of the string literal at the front. -/
def stringLength? : Text → Option Nat
  | [] => none
  | quote :: t => (stringTail? quote t).map (· + 1)

/-- The length of a block comment after its opening. -/
def commentTail? : Text → Option Nat
  | '*' :: '/' :: _ => some 2
  | _ :: t => (commentTail? t).map (· + 1)
  | [] => none

/-- What the scanner makes of the front of a text: the number of characters that belong together,
or the end of the scan. -/
def pieceLength? : Text → Option Nat
  | [] => none
  | c :: t =>
    if isQuote c then stringLength? (c :: t)
    else match c, t with
      | '/', '*' :: rest => (commentTail? rest).map (· + 2)
      | _, _ => some 1

/-- The length up to the brace that closes `depth` open ones. The first `skip` characters belong to
a string or a comment. -/
def scan (depth : Nat) : (skip : Nat) → Text → Option Nat
  | _, [] => none
  | skip + 1, _ :: t => (scan depth skip t).map (· + 1)
  | 0, c :: t =>
    match pieceLength? (c :: t) with
    | none => none
    | some (length + 2) => (scan depth (length + 1) t).map (· + 1)
    | some _ =>
      if c = '\x7b' then (scan (depth + 1) 0 t).map (· + 1)
      else if c = '\x7d' then
        if depth ≤ 1 then some 1 else (scan (depth - 1) 0 t).map (· + 1)
      else (scan depth 0 t).map (· + 1)

/-- The length from the opening brace at the front to the brace that closes it. -/
def balanced? (t : Text) : Option Nat := scan 0 0 t

end Narration.Braces
