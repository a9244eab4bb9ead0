/-
# UTF-8

Reading goes one byte at a time.  Between characters a byte is a character of
its own or the first byte of a longer one; inside a character the decoder owes
a number of tail bytes, and the first of them may have a narrower range than
`0x80 … 0xBF`, which rules out overlong forms, surrogates and numbers beyond
`0x10FFFF`:

| first byte | tail bytes | first tail byte |
| --- | ---: | --- |
| `C2 … DF` | 1 | `80 … BF` |
| `E0` | 2 | `A0 … BF` |
| `E1 … EC`, `EE`, `EF` | 2 | `80 … BF` |
| `ED` | 2 | `80 … 9F` |
| `F0` | 3 | `90 … BF` |
| `F1 … F3` | 3 | `80 … BF` |
| `F4` | 3 | `80 … 8F` |

`decode` stops at the first ill-formed part and tells where it is.
`decodeLossy` writes one `U+FFFD` for each ill-formed part and goes on; a part
is as long as possible, so it ends before the byte that cannot continue it.
-/

import ProtoAtlas.Text.CodePoint

namespace ProtoAtlas
namespace Utf8

/-- What is wrong with a sequence of bytes. -/
inductive Defect where
  /-- A byte that starts no character. -/
  | startByte
  /-- A byte that cannot continue the character before it. -/
  | continuation
  /-- The bytes end inside a character. -/
  | truncated
  deriving DecidableEq

/-- The first ill-formed part of a sequence of bytes. -/
structure Fault where
  /-- The first byte of the part. -/
  byte : UInt8
  /-- Where the part starts. -/
  start : Nat
  /-- How many bytes it has. -/
  width : Nat
  defect : Defect
  deriving DecidableEq

/-- A character whose tail bytes have not all been read. -/
structure Partial where
  /-- The first byte. -/
  byte : UInt8
  /-- Bytes read so far. -/
  width : Nat
  /-- Tail bytes still owed after the next one. -/
  owed : Nat
  /-- Least value of the next byte. -/
  low : Nat
  /-- Greatest value of the next byte. -/
  high : Nat
  /-- The bits read so far. -/
  bits : Nat

/-- What one more byte makes of the character being read. -/
inductive Outcome where
  | char (c : CodePoint)
  | more (p : Partial)
  | refused

/-- The first byte of a character. -/
def first (b : UInt8) : Outcome :=
  let n := b.toNat
  let lead (owed low high offset : Nat) := Outcome.more ⟨b, 1, owed, low, high, n - offset⟩
  if h : n < 0x80 then .char ⟨n, by omega⟩
  else if n < 0xC2 then .refused
  else if n < 0xE0 then lead 0 0x80 0xBF 0xC0
  else if n = 0xE0 then lead 1 0xA0 0xBF 0xE0
  else if n = 0xED then lead 1 0x80 0x9F 0xE0
  else if n < 0xF0 then lead 1 0x80 0xBF 0xE0
  else if n = 0xF0 then lead 2 0x90 0xBF 0xF0
  else if n < 0xF4 then lead 2 0x80 0xBF 0xF0
  else if n = 0xF4 then lead 2 0x80 0x8F 0xF0
  else .refused

/-- A tail byte of a character. -/
def Partial.next (p : Partial) (b : UInt8) : Outcome :=
  let n := b.toNat
  if p.low ≤ n ∧ n ≤ p.high then
    let bits := p.bits * 64 + (n - 0x80)
    match p.owed with
    | 0 => match CodePoint.ofNat? bits with
      | some c => .char c
      | none => .refused
    | owed + 1 => .more ⟨p.byte, p.width + 1, owed, 0x80, 0xBF, bits⟩
  else .refused

/-- One byte, between characters or inside one. -/
def next : Option Partial → UInt8 → Outcome
  | none, b => first b
  | some p, b => p.next b

/-- Decodes from byte `at_` on, where `p` is the character being read. -/
def decodeFrom (p : Option Partial) (at_ : Nat) : List UInt8 → Except Fault Text
  | [] =>
    match p with
    | none => .ok []
    | some p => .error ⟨p.byte, at_ - p.width, p.width, .truncated⟩
  | b :: bs =>
    match next p b with
    | .char c => (c :: ·) <$> decodeFrom none (at_ + 1) bs
    | .more q => decodeFrom (some q) (at_ + 1) bs
    | .refused =>
      match p with
      | none => .error ⟨b, at_, 1, .startByte⟩
      | some p => .error ⟨p.byte, at_ - p.width, p.width, .continuation⟩

/-- The text of a sequence of bytes, or its first ill-formed part. -/
def decode (bytes : List UInt8) : Except Fault Text :=
  decodeFrom none 0 bytes

/-- Decodes with a replacement character for each ill-formed part, where `p`
is the character being read. -/
def decodeLossyFrom (p : Option Partial) : List UInt8 → Text
  | [] => if p.isSome then [CodePoint.replacement] else []
  | b :: bs =>
    match next p b with
    | .char c => c :: decodeLossyFrom none bs
    | .more q => decodeLossyFrom (some q) bs
    | .refused =>
      match p with
      | none => CodePoint.replacement :: decodeLossyFrom none bs
      | some _ =>
        CodePoint.replacement ::
          match first b with
          | .char c => c :: decodeLossyFrom none bs
          | .more q => decodeLossyFrom (some q) bs
          | .refused => CodePoint.replacement :: decodeLossyFrom none bs

/-- The text of a sequence of bytes; `U+FFFD` stands for each ill-formed
part. -/
def decodeLossy (bytes : List UInt8) : Text :=
  decodeLossyFrom none bytes

/-- The bytes of a code point.  The surrogates `DC80 … DCFF` stand for the single
bytes `80 … FF` of a name that is no text; any other surrogate gets the three
bytes its number asks for. -/
def encodeChar (c : CodePoint) : List UInt8 :=
  let n := c.val
  let tail (shift : Nat) : UInt8 := UInt8.ofNat (0x80 + (n >>> shift) % 64)
  if n < 0x80 then [UInt8.ofNat n]
  else if n < 0x800 then [UInt8.ofNat (0xC0 + n / 64), tail 0]
  else if 0xDC80 ≤ n ∧ n ≤ 0xDCFF then [UInt8.ofNat (n - 0xDC00)]
  else if n < 0x10000 then [UInt8.ofNat (0xE0 + n / 4096), tail 6, tail 0]
  else [UInt8.ofNat (0xF0 + n / 262144), tail 12, tail 6, tail 0]

/-- The bytes of a text. -/
def encode (t : Text) : List UInt8 :=
  t.flatMap encodeChar

/-- Two hexadecimal digits of a byte. -/
def hexByte (digit : Nat → Char) (b : UInt8) : Text :=
  [CodePoint.ofChar (digit (b.toNat / 16)), CodePoint.ofChar (digit (b.toNat % 16))]

/-- What the reader of an undecodable file is told. -/
def Fault.message (f : Fault) : Text :=
  let reason : Text := match f.defect with
    | .startByte => "invalid start byte"
    | .continuation => "invalid continuation byte"
    | .truncated => "unexpected end of data"
  let place : Text :=
    if f.width = 1 then
      "byte 0x" ++ hexByte Nat.digitChar f.byte ++ " in position " ++ Text.ofNat f.start
    else
      "bytes in position " ++ Text.ofNat f.start ++ "-" ++ Text.ofNat (f.start + f.width - 1)
  "'utf-8' codec can't decode " ++ place ++ ": " ++ reason

end Utf8
end ProtoAtlas
