import Narration.Text.Basic

/-!
# Inline tokens

* `Mark` : the spans that are opened and closed;
* `InlineToken` : the flat form of inline content;
* `InlineToken.joinTexts`, `InlineToken.joinAll` : adjacent texts made one.
-/

namespace Narration.Markup

/-- A span of inline content. -/
inductive Mark where
  | emphasis
  | strong
  | strike
  | link (target : Text)
  deriving Repr, DecidableEq, Inhabited

/-- Inline content in a row. A `special` is text that an escape or a reference stands for. -/
inductive InlineToken where
  | text (value : Text)
  | special (value : Text)
  | lineBreak
  | code (value : Text)
  | image (target : Text) (alternative : List InlineToken)
  | opening (mark : Mark)
  | closing (mark : Mark)
  deriving Repr, Inhabited

namespace InlineToken

/-- Puts a token before others, a text being joined to a text. -/
def consText (token : InlineToken) (tokens : List InlineToken) : List InlineToken :=
  match token, tokens with
  | .text a, .text b :: rest => .text (a ++ b) :: rest
  | _, _ => token :: tokens

/-- Adjacent texts made one. -/
def joinTexts (tokens : List InlineToken) : List InlineToken := tokens.foldr consText []

mutual

/-- A token with the texts in the alternative text of an image joined. -/
def joinInside : InlineToken → InlineToken
  | .image target alternative => .image target (joinAll alternative)
  | .special value => .text value
  | token => token

/-- Adjacent texts and specials made one text, those in the alternative texts of images too. -/
def joinAll : List InlineToken → List InlineToken
  | [] => []
  | token :: tokens => consText (joinInside token) (joinAll tokens)

end

end InlineToken
end Narration.Markup
