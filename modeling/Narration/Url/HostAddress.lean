import Narration.Entity
import Narration.Text.Basic

/-!
# Numeric host addresses

* `HostAddress.isFour` : four numbers up to 255 with points between them;
* `HostAddress.isSix` : eight groups of hexadecimal digits, of which one run may be left out;
* `HostAddress.isFuture` : an address of a version to come.
-/

namespace Narration.HostAddress

/-- A number up to 255 without leading zeros. -/
def isOctet (t : Text) : Bool :=
  t.all Char.isDigit && (t = ['0'] || t.head? != some '0') &&
    (Entity.number? 10 3 t).any (· ≤ 255)

/-- Four numbers with points between them. -/
def isFour (t : Text) : Bool :=
  let octets := Text.splitOn '.' t
  octets.length == 4 && octets.all isOctet

/-- A group of one to four hexadecimal digits. -/
def isGroup (t : Text) : Bool := (Entity.number? 16 4 t).isSome

/-- The groups of an address; an address of four numbers at the end counts as two groups. -/
def groups? (t : Text) : Option (List Text) :=
  let groups := Text.splitOn ':' t
  let last := groups.getLast?.getD []
  if last.contains '.' then
    if isFour last then some (groups.dropLast ++ [['0'], ['0']]) else none
  else some groups

/-- Whether the groups before and after the run that is left out are right: an end may be left out
only together with its neighbour. -/
def isSide (groups : List Text) : Bool := groups = [[]] || groups.all isGroup

/-- Whether groups make an address. An empty group inside stands for a run of one group or more. -/
def areSix (groups : List Text) : Bool :=
  let inner := (groups.drop 1).dropLast
  match inner.findIdx? List.isEmpty with
  | none => groups.length == 8 && groups.all isGroup
  | some i =>
    let before := groups.take (i + 1)
    let after := groups.drop (i + 2)
    let count (side : List Text) : Nat := (side.filter (!·.isEmpty)).length
    isSide before && isSide after && count before + count after < 8 &&
      (inner.filter List.isEmpty).length == 1

/-- Eight groups of hexadecimal digits, of which one run may be left out; perhaps with a zone after a
percent sign. -/
def isSix (t : Text) : Bool :=
  let (address, zone) := match Text.cut? '%' t with
    | some (address, zone) => (address, some zone)
    | none => (t, none)
  zone.all (fun z => !z.isEmpty && !z.contains '%') &&
    (groups? address).any fun groups => 3 ≤ groups.length && groups.length ≤ 9 && areSix groups

/-- A `v`, a version in hexadecimal digits, a point and something. -/
def isFuture (t : Text) : Bool :=
  match t with
  | 'v' :: t =>
    let (version, rest) := t.span Entity.isHexDigit
    !version.isEmpty && rest.head? = some '.' && 1 < rest.length
  | _ => false

end Narration.HostAddress
