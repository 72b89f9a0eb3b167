/-
Module: SmallScheme.Text.Utf8
Purpose: Text as bytes and back. Writing a character takes one to four bytes. Reading goes byte by byte and keeps
  the bytes of a character that is not yet complete, so that a text may arrive in pieces; at the first byte that
  cannot belong to the text it stops with the defect, where it starts and how many bytes it spans.
Main exports: encode, Defect, DecodingError, Progress, progress, Decoder, decodePiece, finish, decode
-/

namespace SmallScheme.Text.Utf8

/-- The bytes of one character. -/
def encodeChar (c : Char) : List UInt8 :=
  let n := c.toNat
  let tail (k : Nat) : UInt8 := UInt8.ofNat (0x80 + n / k % 0x40)
  if n < 0x80 then [UInt8.ofNat n]
  else if n < 0x800 then [UInt8.ofNat (0xC0 + n / 0x40), tail 1]
  else if n < 0x10000 then [UInt8.ofNat (0xE0 + n / 0x1000), tail 0x40, tail 1]
  else [UInt8.ofNat (0xF0 + n / 0x40000), tail 0x1000, tail 0x40, tail 1]

/-- The bytes of a text. -/
def encode (cs : List Char) : List UInt8 :=
  cs.flatMap encodeChar

/-- What can be wrong with a sequence of bytes. -/
inductive Defect where
  /-- No character starts with this byte. -/
  | invalidStart
  /-- A character was begun, and the next byte does not continue it. -/
  | invalidContinuation
  /-- The bytes end inside a character. -/
  | unexpectedEnd
deriving DecidableEq, Repr, Inhabited

/-- The wording of a defect. -/
def Defect.reason : Defect → String
  | .invalidStart => "invalid start byte"
  | .invalidContinuation => "invalid continuation byte"
  | .unexpectedEnd => "unexpected end of data"

/-- A defect with its place: the offset of the first byte concerned, that byte, and how many bytes are. -/
structure DecodingError where
  defect : Defect
  start : Nat
  firstByte : UInt8
  length : Nat
deriving DecidableEq, Repr, Inhabited

/-- The wording of a decoding error: one byte is named by its value, several by their positions. -/
def DecodingError.message (e : DecodingError) : String :=
  let digits := Nat.toDigits 16 e.firstByte.toNat
  let byte := String.ofList (List.replicate (2 - digits.length) '0' ++ digits)
  let subject :=
    if e.length = 1 then "byte 0x" ++ byte ++ " in position " ++ toString e.start
    else "bytes in position " ++ toString e.start ++ "-" ++ toString (e.start + e.length - 1)
  "'utf-8' codec can't decode " ++ subject ++ ": " ++ e.defect.reason

/-- A byte that continues a character. -/
def isTail (b : UInt8) : Bool :=
  0x80 ≤ b && b < 0xC0

/-- The bytes `ED A0` to `ED BF` would begin a surrogate. They are refused as soon as another byte or the end of
    the text follows, and not before. -/
def beginsSurrogate : List UInt8 → Bool
  | [a, b] => a == 0xED && 0xA0 ≤ b && b < 0xC0
  | _ => false

/-- How far some bytes have come towards a character. -/
inductive Progress where
  /-- They are a character. -/
  | complete (c : Char)
  /-- They begin a character and need more. -/
  | incomplete
  /-- They are in vain: the defect, and how many of the bytes it concerns. -/
  | refused (defect : Defect) (length : Nat)
deriving DecidableEq, Repr, Inhabited

/-- The lowest six bits of a byte, which is what a tail byte carries. -/
def payload (b : UInt8) : Nat :=
  b.toNat % 0x40

/-- Whether a second byte may follow the first of three or four: it is a tail byte, and with the first it
    makes a number that needs that many bytes and lies in the range of Unicode. -/
def secondFits (a b : UInt8) : Bool :=
  isTail b && (a != 0xE0 || 0xA0 ≤ b) && (a != 0xF0 || 0x90 ≤ b) && (a != 0xF4 || b < 0x90)

/-- The progress of one to four bytes, all but the last of which are known to be incomplete. -/
def progress : List UInt8 → Progress
  | [a] =>
    if a < 0x80 then .complete (Char.ofNat a.toNat)
    else if 0xC2 ≤ a && a < 0xF5 then .incomplete
    else .refused .invalidStart 1
  | [a, b] =>
    if a < 0xE0 then
      if isTail b then .complete (Char.ofNat (a.toNat % 0x20 * 0x40 + payload b))
      else .refused .invalidContinuation 1
    else if secondFits a b then .incomplete
    else .refused .invalidContinuation 1
  | [a, b, c] =>
    if beginsSurrogate [a, b] then .refused .invalidContinuation 1
    else if !isTail c then .refused .invalidContinuation 2
    else if a < 0xF0 then
      .complete (Char.ofNat ((a.toNat % 0x10 * 0x40 + payload b) * 0x40 + payload c))
    else .incomplete
  | [a, b, c, d] =>
    if isTail d then
      .complete (Char.ofNat (((a.toNat % 0x08 * 0x40 + payload b) * 0x40 + payload c) * 0x40 + payload d))
    else .refused .invalidContinuation 3
  | _ => .refused .invalidStart 1

/-- The state of reading: the characters read, newest first, the bytes of the character begun, and the offset
    of the first of those. -/
structure Decoder where
  read : List Char := []
  begun : List UInt8 := []
  offset : Nat := 0
deriving DecidableEq, Repr, Inhabited

/-- Takes one more byte. -/
def Decoder.push (d : Decoder) (b : UInt8) : Except DecodingError Decoder :=
  let bytes := d.begun ++ [b]
  match progress bytes with
  | .complete c => .ok { read := c :: d.read, begun := [], offset := d.offset + bytes.length }
  | .incomplete => .ok { d with begun := bytes }
  | .refused defect length =>
    .error { defect, start := d.offset, firstByte := bytes.headD 0, length }

/-- Reads a piece of a text after the bytes that an earlier piece left over. Gives the characters and the bytes
    left over now; offsets in errors count from the first left-over byte. -/
def decodePiece (leftOver piece : List UInt8) : Except DecodingError (List Char × List UInt8) := do
  let d ← (leftOver ++ piece).foldlM Decoder.push {}
  return (d.read.reverse, d.begun)

/-- What is wrong when the text ends with these bytes left over: nothing if there are none. -/
def finish : List UInt8 → Except DecodingError Unit
  | [] => .ok ()
  | b :: bs =>
    if beginsSurrogate (b :: bs) then
      .error { defect := .invalidContinuation, start := 0, firstByte := b, length := 1 }
    else .error { defect := .unexpectedEnd, start := 0, firstByte := b, length := (b :: bs).length }

/-- Reads a whole text. -/
def decode (bytes : List UInt8) : Except DecodingError (List Char) := do
  let d ← bytes.foldlM Decoder.push {}
  match finish d.begun with
  | .ok () => return d.read.reverse
  | .error e => throw { e with start := d.offset }

end SmallScheme.Text.Utf8
