import Narration.Text.Basic

/-!
# UTF-8

* `Utf8.encode` : the bytes of a text;
* `Utf8.decode` : the text of some bytes, or the place and the cause of the first fault;
* `Utf8.decodeStream` : the same for bytes that are read piece by piece;
* `Utf8.Fault.message` : the wording of a fault.
-/

namespace Narration.Utf8

/-- Why bytes are no UTF-8. -/
inductive Cause where
  | invalidStart
  | invalidContinuation
  | unexpectedEnd
  deriving Repr, DecidableEq

/-- The first fault of a byte sequence: the offset of its character, the offending first byte, how
many bytes are at fault, and why. -/
structure Fault where
  offset : Nat
  byte : UInt8
  width : Nat
  cause : Cause
  deriving Repr, DecidableEq

/-- The bytes of a text. -/
def encode (t : Text) : List UInt8 := t.flatMap String.utf8EncodeChar

/-- A continuation byte. -/
def isContinuation (b : UInt8) : Bool := b &&& 0xC0 == 0x80

/-- How many continuation bytes a first byte asks for, and the range of the first of them. -/
def follow? (b : UInt8) : Option (Nat × UInt8 × UInt8) :=
  if b < 0x80 then some (0, 0, 0)
  else if b < 0xC2 then none
  else if b < 0xE0 then some (1, 0x80, 0xBF)
  else if b == 0xE0 then some (2, 0xA0, 0xBF)
  else if b == 0xED then some (2, 0x80, 0x9F)
  else if b < 0xF0 then some (2, 0x80, 0xBF)
  else if b == 0xF0 then some (3, 0x90, 0xBF)
  else if b < 0xF4 then some (3, 0x80, 0xBF)
  else if b == 0xF4 then some (3, 0x80, 0x8F)
  else none

/-- Reads `more` continuation bytes, of which `got` bytes of the character precede; answers the code
point, or the width and the cause of the fault. -/
def continuation : (more got code : Nat) → List UInt8 → Except (Nat × Cause) Nat
  | 0, _, code, _ => .ok code
  | _ + 1, got, _, [] => .error (got, .unexpectedEnd)
  | more + 1, got, code, b :: bs =>
    if isContinuation b then continuation more (got + 1) (code * 64 + (b &&& 0x3F).toNat) bs
    else .error (got, .invalidContinuation)

/-- Reads one character: its code point and the number of continuation bytes. -/
def character (b : UInt8) (bs : List UInt8) : Except (Nat × Cause) (Nat × Nat) :=
  match follow? b with
  | none => .error (1, .invalidStart)
  | some (0, _, _) => .ok (b.toNat, 0)
  | some (more, low, high) =>
    match bs with
    | [] => .error (1, .unexpectedEnd)
    | c :: _ =>
      if low ≤ c && c ≤ high then do
        let lead := if more = 1 then b &&& 0x1F else if more = 2 then b &&& 0x0F else b &&& 0x07
        return (← continuation more 1 lead.toNat bs, more)
      else .error (1, .invalidContinuation)

/-- Decodes bytes of which the first `skip` belong to the last character; `text` is reversed. -/
def decodeFrom (offset : Nat) (text : Text) : (skip : Nat) → List UInt8 → Except Fault Text
  | _, [] => .ok text.reverse
  | skip + 1, _ :: bs => decodeFrom (offset + 1) text skip bs
  | 0, b :: bs =>
    match character b bs with
    | .ok (code, more) => decodeFrom (offset + 1) (Char.ofNat code :: text) more bs
    | .error (width, cause) => .error ⟨offset, b, width, cause⟩

/-- The text that some bytes encode. -/
def decode (bytes : List UInt8) : Except Fault Text := decodeFrom 0 [] 0 bytes

/-- How many bytes are read at a time when a file is read piece by piece. -/
def pieceSize : Nat := 8192

/-- Decodes bytes that are read piece by piece, a character cut off at the end of a piece being held
over to the next. Offsets of faults count from the start of what is decoded together. `fuel` bounds
the number of pieces. -/
def decodePieces : (fuel : Nat) → (held bytes : List UInt8) → Except Fault Text
  | 0, _, _ => .ok []
  | fuel + 1, held, bytes =>
    if bytes.isEmpty then decode held
    else
      let piece := held ++ bytes.take pieceSize
      let (whole, held) := match decode piece with
        | .error ⟨offset, _, _, .unexpectedEnd⟩ => (piece.take offset, piece.drop offset)
        | _ => (piece, [])
      do return (← decode whole) ++ (← decodePieces fuel held (bytes.drop pieceSize))

/-- The text of bytes that are read piece by piece. -/
def decodeStream (bytes : List UInt8) : Except Fault Text :=
  decodePieces (bytes.length / pieceSize + 2) [] bytes

def Cause.message : Cause → String
  | .invalidStart => "invalid start byte"
  | .invalidContinuation => "invalid continuation byte"
  | .unexpectedEnd => "unexpected end of data"

/-- One byte is shown in hexadecimal; several are given by their offsets. -/
def Fault.message (f : Fault) : String :=
  let place :=
    if f.width = 1 then
      let hex := Nat.toDigits 16 f.byte.toNat
      let hex := String.ofList (if hex.length = 1 then '0' :: hex else hex)
      s!"byte 0x{hex} in position {f.offset}"
    else
      let last := f.offset + f.width - 1
      s!"bytes in position {f.offset}-{last}"
  s!"'utf-8' codec can't decode {place}: {f.cause.message}"

end Narration.Utf8
