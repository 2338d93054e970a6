import Narration.Text.Blank
import Narration.Url.Percent
import Narration.Url.Punycode

/-!
# Link targets

The target of a link is cut into its parts, its host name is coded, and the parts are put together
again and escaped.

* `LinkTarget` : the parts;
* `LinkTarget.ofText` : the parts of a text, read leniently;
* `LinkTarget.toText` : the parts put together;
* `LinkTarget.normalize` : the form in which a target is kept;
* `LinkTarget.readable` : the form in which a target is shown;
* `LinkTarget.isAllowed` : whether following the target is harmless.
-/

namespace Narration

/-- The parts of a link target, each with the marks that set it off, save `//`, `@` and the colon
before the number of the service. -/
structure LinkTarget where
  protocol : Text := []
  slashes : Bool := false
  auth : Text := []
  host : Text := []
  service : Text := []
  path : Text := []
  query : Text := []
  fragment : Text := []
  deriving Repr, DecidableEq, Inhabited

namespace LinkTarget

/-- A character of a scheme; four letters beyond ASCII differ from these only in case. -/
def isSchemeChar (c : Char) : Bool :=
  c.isAlphanum || c == '.' || c == '+' || c == '-' || [0x130, 0x131, 0x17F, 0x212A].contains c.toNat

/-- The scheme with its colon, and what follows. -/
def scheme? (t : Text) : Option (Text × Text) :=
  match t.span isSchemeChar with
  | ([], _) => none
  | (scheme, ':' :: rest) => some (scheme ++ [':'], rest)
  | _ => none

/-- Schemes whose host is always set off by slashes. -/
def slashedSchemes : List Text :=
  ["http:", "https:", "ftp:", "gopher:", "file:"].map String.toList

/-- The scheme that has no host. -/
def hostlessScheme : Text := "javascript:".toList

/-- The characters that end a host name. -/
def endsHost (c : Char) : Bool := "%/?;#'\x7b\x7d|\\^\x60<>\" \r\n\t".toList.contains c

/-- The characters that a host name consists of. -/
def isHostChar (c : Char) : Bool := c.isAlphanum || c == '+' || c == '-' || c == '_'

/-- Whether a label is short and of plain characters, those beyond ASCII counted as plain. -/
def isLabel (label : Text) : Bool :=
  label.length ≤ 63 && label.all fun c => isHostChar c || 0x7F < c.toNat

/-- Cuts off the number of the service: a colon with digits at the end of a host. -/
def cutService (host : Text) : Text × Text :=
  let digits := (host.reverse.takeWhile Char.isDigit).reverse
  let rest := host.take (host.length - digits.length)
  if rest.getLast? = some ':' then (rest.dropLast, digits) else (host, [])

/-- Keeps the labels up to the first bad one, of which it keeps the good beginning; answers the host
name and what belongs to the rest. -/
def cutBadLabel : List Text → Option (List Text × Text)
  | [] => none
  | label :: labels =>
    if label.isEmpty || isLabel label then
      (cutBadLabel labels).map fun (good, rest) => (label :: good, rest)
    else
      let good := (label.takeWhile isHostChar).take 63
      some ([good], Text.join ['.'] (label.drop good.length :: labels))

/-- The user before the last at sign of the authority, which runs to the first slash, question mark
or number sign. -/
def cutAuth (t : Text) : Text × Text :=
  let authority := t.takeWhile fun c => c ≠ '/' && c ≠ '?' && c ≠ '#'
  match Text.findLast? authority '@' with
  | some n => (t.take n, t.drop (n + 1))
  | none => ([], t)

/-- The host, the number of its service, and what follows. -/
def cutHost (t : Text) : Text × Text × Text :=
  let host := t.takeWhile fun c => !endsHost c
  let host := if host.getLast? = some ':' then host.dropLast else host
  let rest := t.drop host.length
  let (host, service) := cutService host
  if host.head? = some '[' && host.getLast? = some ']' then
    let host := if host.length > 255 then [] else host
    (host.tail.dropLast, service, rest)
  else
    let (host, rest) := match cutBadLabel (Text.splitOn '.' host) with
      | some (good, bad) => (Text.join ['.'] good, bad ++ rest)
      | none => (host, rest)
    (if host.length > 255 then [] else host, service, rest)

/-- Sets path, query and fragment from what follows the host. -/
def withTail (target : LinkTarget) (t : Text) : LinkTarget :=
  let front := t.takeWhile (· ≠ '#')
  let path := front.takeWhile (· ≠ '?')
  { target with path, query := front.drop path.length, fragment := t.drop front.length }

/-- The parts of a text. Two slashes at the front always set off a host. -/
def ofText (t : Text) : LinkTarget :=
  let t := Text.trim t
  let (protocol, t) := (scheme? t).getD ([], t)
  let hostless := protocol = hostlessScheme
  let twoSlashes := Text.beginsWith t ['/', '/']
  let slashes := twoSlashes && !hostless
  let t := if slashes then t.drop 2 else t
  if !hostless && (twoSlashes || (!protocol.isEmpty && !slashedSchemes.contains protocol)) then
    let (auth, t) := cutAuth t
    let (host, service, t) := cutHost t
    withTail { protocol, slashes, auth, host, service } t
  else
    withTail { protocol, slashes } t

/-- What stands before the host. -/
def front (target : LinkTarget) : Text :=
  target.protocol ++ (if target.slashes then ['/', '/'] else []) ++
    (if target.auth.isEmpty then [] else target.auth ++ ['@'])

/-- What stands after the host. -/
def back (target : LinkTarget) : Text :=
  (if target.service.isEmpty then [] else ':' :: target.service) ++
    target.path ++ target.query ++ target.fragment

/-- The parts put together; a host with a colon stands in square brackets. -/
def toText (target : LinkTarget) : Text :=
  target.front ++ (if target.host.contains ':' then '[' :: target.host ++ [']'] else target.host) ++
    target.back

/-- Recodes the host name where the scheme is known to have one; a name that cannot be recoded
stays. -/
def recodeHost (f : Text → Option Text) (target : LinkTarget) : LinkTarget :=
  let known := target.protocol.isEmpty ||
    (["http:", "https:", "mailto:"].map String.toList).contains target.protocol
  if target.host.isEmpty || !known then target
  else { target with host := (f target.host).getD target.host }

/-- The parts escaped and put together; the square brackets around a host with a colon stay as they
are. -/
def escaped (target : LinkTarget) : Text :=
  if target.host.contains ':' then
    Url.encode target.front ++ '[' :: Url.encode target.host ++ ']' :: Url.encode target.back
  else Url.encode target.toText

/-- The form in which a link target is kept: host name in ASCII, other characters escaped. -/
def normalize (t : Text) : Text := escaped (recodeHost Punycode.toAscii (ofText t))

/-- The form in which a link target is shown: host name and escapes read. -/
def readable (t : Text) : Text := Url.decode (toText (recodeHost Punycode.toUnicode? (ofText t)))

/-- Schemes that may run code or read files are refused, save for pictures given as data. -/
def isAllowed (t : Text) : Bool :=
  let t := Text.lower (Text.trim t)
  let starts (s : String) := Text.beginsWith t s.toList
  let refused := ["vbscript:", "javascript:", "file:", "data:"].any starts
  let picture :=
    ["data:image/gif;", "data:image/png;", "data:image/jpeg;", "data:image/webp;"].any starts
  !refused || picture

end LinkTarget
end Narration
