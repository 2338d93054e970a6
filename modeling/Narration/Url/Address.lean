import Narration.Text.Blank
import Narration.Text.Quoted
import Narration.Url.HostAddress

/-!
# Addresses

* `Address.Fault` : why an address is refused;
* `Address.path` : the path of an address, without parameters, query and fragment.
-/

namespace Narration.Address

/-- Why an address is refused. -/
inductive Fault where
  | unbalancedBrackets
  | badFutureHost
  | bracketedFour
  | noHostAddress (host : Text)
  | foldingHost (authority : Text)
  deriving Repr, DecidableEq, Inhabited

def Fault.message : Fault → Text
  | .unbalancedBrackets => "Invalid IPv6 URL".toList
  | .badFutureHost => "IPvFuture address is invalid".toList
  | .bracketedFour => "An IPv4 address cannot be in brackets".toList
  | .noHostAddress host =>
    Text.quoted host ++ " does not appear to be an IPv4 or IPv6 address".toList
  | .foldingHost authority =>
    "netloc '".toList ++ authority ++ "' contains invalid characters under NFKC normalization".toList

/-- An address without the controls and blanks in front and the line ends and tabs anywhere. -/
def cleaned (t : Text) : Text :=
  (t.dropWhile (·.toNat ≤ 0x20)).filter fun c => c != '\t' && c != '\r' && c != '\n'

def isSchemeChar (c : Char) : Bool := c.isAlphanum || c == '+' || c == '-' || c == '.'

/-- The scheme in small letters, empty if there is none, and what follows it. -/
def scheme (t : Text) : Text × Text :=
  match Text.cut? ':' t with
  | some (scheme, rest) =>
    if scheme.head?.any Char.isAlpha && scheme.all isSchemeChar then (scheme.map Char.toLower, rest)
    else ([], t)
  | none => ([], t)

/-- The authority between two slashes and the path, and what follows it. -/
def authority (t : Text) : Text × Text :=
  match t with
  | '/' :: '/' :: rest => rest.span fun c => c != '/' && c != '?' && c != '#'
  | _ => ([], t)

/-- Refuses a host in brackets that is no address of a version that is written so. -/
def checkHost (host : Text) : Except Fault Unit :=
  if host.head? = some 'v' then
    if HostAddress.isFuture host then .ok () else .error .badFutureHost
  else if HostAddress.isFour host then .error .bracketedFour
  else if HostAddress.isSix host then .ok ()
  else .error (.noHostAddress host)

/-- Refuses brackets in an authority that are not paired or not around a host. -/
def checkBrackets (t : Text) : Except Fault Unit :=
  if t.contains '[' != t.contains ']' then .error .unbalancedBrackets
  else match Text.cut? '[' t with
    | some (_, inside) => checkHost (inside.takeWhile (· ≠ ']'))
    | none => .ok ()

/-- The characters beyond ASCII whose compatibility form holds a mark that sets off parts of an
address. -/
def foldsToMark (c : Char) : Bool :=
  [0x2047, 0x2048, 0x2049, 0x2100, 0x2101, 0x2105, 0x2106, 0x2A74, 0xFE13, 0xFE16, 0xFE55, 0xFE56,
    0xFE5F, 0xFE6B, 0xFF03, 0xFF0F, 0xFF1A, 0xFF1F, 0xFF20].contains c.toNat

/-- The schemes whose paths may have parameters. -/
def withParameters : List Text :=
  ["", "ftp", "hdl", "prospero", "http", "imap", "https", "shttp", "rtsp", "rtsps", "rtspu", "sip",
    "sips", "mms", "sftp", "tel"].map String.toList

/-- A path without the parameters of its last segment. -/
def withoutParameters (t : Text) : Text :=
  match Text.cutLast? '/' t with
  | some (before, last) => before ++ '/' :: last.takeWhile (· ≠ ';')
  | none => t.takeWhile (· ≠ ';')

/-- The path of an address. -/
def path (url : Text) : Except Fault Text := do
  let (scheme, rest) := scheme (cleaned url)
  let (authority, rest) := authority rest
  checkBrackets authority
  if authority.any foldsToMark then throw (.foldingHost authority)
  let path := rest.takeWhile fun c => c != '#' && c != '?'
  return if withParameters.contains scheme then withoutParameters path else path

end Narration.Address
