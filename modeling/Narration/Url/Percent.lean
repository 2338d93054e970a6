import Narration.Text.Utf8
import Narration.Entity

/-!
# Percent coding

* `Url.encode` : reserved and other characters written as percent escapes, escapes that are there
  already left alone;
* `Url.decode` : runs of percent escapes read back, save for the characters a link text keeps
  escaped.
-/

namespace Narration.Url

/-- A byte as a percent escape. -/
def escapeByte (b : UInt8) : Text :=
  ['%', (Nat.digitChar (b.toNat / 16)).toUpper, (Nat.digitChar (b.toNat % 16)).toUpper]

/-- The characters that a link target holds as they are. -/
def isPlain (c : Char) : Bool := c.isAlphanum || ";/?:@&=+$,-_.!~*'()#".toList.contains c

/-- A character of a link target. -/
def encodeChar (c : Char) : Text :=
  if isPlain c then [c] else (String.utf8EncodeChar c).flatMap escapeByte

/-- Writes a link target; the first `skip` characters are copied. -/
def encodeFrom : (skip : Nat) → Text → Text
  | _, [] => []
  | skip + 1, c :: t => c :: encodeFrom skip t
  | 0, '%' :: a :: b :: t =>
    if Entity.isHexDigit a && Entity.isHexDigit b then '%' :: encodeFrom 2 (a :: b :: t)
    else encodeChar '%' ++ encodeFrom 0 (a :: b :: t)
  | 0, c :: t => encodeChar c ++ encodeFrom 0 t

/-- Percent escapes for all characters that may not stand in a link target. -/
def encode (t : Text) : Text := encodeFrom 0 t

/-- The byte that two hexadecimal digits write. -/
def byte? (a b : Char) : Option Nat :=
  return 16 * (← Entity.hexValue? a) + (← Entity.hexValue? b)

/-- The bytes of the escapes in a row at the front of a text. -/
def escapes : Text → List Nat
  | '%' :: a :: b :: t =>
    match byte? a b with
    | some n => n :: escapes t
    | none => []
  | _ => []

/-- The characters that stay escaped in a link text. -/
def staysEscaped (c : Char) : Bool := ";/?:@&=+$,#%".toList.contains c

/-- How many continuation bytes a first byte announces. -/
def announced (b : Nat) : Nat :=
  if b / 0x20 = 6 then 1 else if b / 0x10 = 14 then 2 else if b / 8 = 30 then 3 else 0

/-- The text of a run of escaped bytes; the first `skip` bytes are part of the last character. Bytes
that are no UTF-8 give replacement characters. -/
def decodeBytes : (skip : Nat) → List Nat → Text
  | _, [] => []
  | skip + 1, _ :: bs => decodeBytes skip bs
  | 0, b :: bs =>
    if b < 0x80 then
      (if staysEscaped (Char.ofNat b) then escapeByte (UInt8.ofNat b) else [Char.ofNat b]) ++
        decodeBytes 0 bs
    else
      let more := announced b
      let tail := bs.take more
      if more > 0 && tail.length == more && tail.all (fun x => x / 0x40 == 2) then
        (match Utf8.decode ((b :: tail).map UInt8.ofNat) with
          | .ok t => t
          | .error _ => List.replicate (more + 1) (Char.ofNat 0xFFFD)) ++ decodeBytes more bs
      else Char.ofNat 0xFFFD :: decodeBytes 0 bs

/-- Decodes, the first `skip` characters dropped. -/
def decodeFrom : (skip : Nat) → Text → Text
  | _, [] => []
  | skip + 1, _ :: t => decodeFrom skip t
  | 0, c :: t =>
    match escapes (c :: t) with
    | [] => c :: decodeFrom 0 t
    | bytes => decodeBytes 0 bytes ++ decodeFrom (3 * bytes.length - 1) t

/-- The text behind the percent escapes. -/
def decode (t : Text) : Text := decodeFrom 0 t

end Narration.Url
