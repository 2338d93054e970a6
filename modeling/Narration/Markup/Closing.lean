import Narration.Markup.Tag
import Narration.Text.Blank

/-!
# Closing tags

* `Closing.mention?` : a tag bracket with a given name at the front of a text;
* `Closing.find?` : the closing tag that belongs to an open one.
-/

namespace Narration.Markup.Closing

/-- Whether a name may end before this character. The name of a fragment is empty and ends at the
bracket. -/
def endsName (name : Text) (c : Char) : Bool :=
  c == '>' || (!name.isEmpty && (c == '/' || Text.isBlank c))

/-- Whether a text goes on with the name and its end; answers what follows the name. -/
def named? (name t : Text) : Option Text := do
  let rest ← Text.after? name t
  if rest.head?.any (endsName name) then some rest else none

/-- After an angle bracket: whether a tag of this name closes or opens, and what follows the name. -/
def mention? (name : Text) (t : Text) : Option (Bool × Text) :=
  match (Text.after? ['/'] t).bind (named? name) with
  | some rest => some (true, rest)
  | none => (named? name t).map (false, ·)

/-- Searches for the tag that closes the innermost of `depth` open ones of this name: its offset and
the offset after it. The first `skip` characters belong to a tag that was passed. A closing tag that
never ends leaves all open. -/
def findFrom (name : Text) :
    (depth skip offset : Nat) → Text → Option (Nat × Nat)
  | _, _, _, [] => none
  | depth, skip + 1, offset, _ :: t => findFrom name depth skip (offset + 1) t
  | depth, 0, offset, c :: t =>
    if c ≠ '<' then findFrom name depth 0 (offset + 1) t
    else
      match mention? name t with
      | none => findFrom name depth 0 (offset + 1) t
      | some (true, rest) =>
        match rest.findIdx? (· = '>') with
        | none => none
        | some n =>
          let length := (t.length - rest.length) + n + 1
          if depth ≤ 1 then some (offset, offset + 1 + length)
          else findFrom name (depth - 1) length (offset + 1) t
      | some (false, rest) =>
        match Tag.read? offset (c :: t) with
        | none => findFrom name depth (t.length - rest.length) (offset + 1) t
        | some tag =>
          findFrom name (if tag.selfClosing then depth else depth + 1) (tag.stop - offset - 1)
            (offset + 1) t

/-- The extent of the tag that closes an open one, the text after which begins at `offset`. -/
def find? (name : Text) (offset : Nat) (t : Text) : Option (Nat × Nat) := findFrom name 1 0 offset t

end Narration.Markup.Closing
