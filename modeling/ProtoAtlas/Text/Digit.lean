/-
# Digits

Two properties of Unicode.  A *decimal digit* belongs to a run of ten code
points with the values `0 … 9` in order, so the table lists where each run
starts.  A *digit* is a decimal digit or one of the digits that do not form
decimal numbers: superscripts, subscripts, circled digits and the like.
-/

import ProtoAtlas.Text.CodePoint

namespace ProtoAtlas

namespace CodePoint

/-- Where the runs of ten decimal digits start. -/
def decimalZeros : List Nat :=
  [0x0030, 0x0660, 0x06F0, 0x07C0, 0x0966, 0x09E6, 0x0A66, 0x0AE6,
    0x0B66, 0x0BE6, 0x0C66, 0x0CE6, 0x0D66, 0x0DE6, 0x0E50, 0x0ED0,
    0x0F20, 0x1040, 0x1090, 0x17E0, 0x1810, 0x1946, 0x19D0, 0x1A80,
    0x1A90, 0x1B50, 0x1BB0, 0x1C40, 0x1C50, 0xA620, 0xA8D0, 0xA900,
    0xA9D0, 0xA9F0, 0xAA50, 0xABF0, 0xFF10, 0x104A0, 0x10D30, 0x11066,
    0x110F0, 0x11136, 0x111D0, 0x112F0, 0x11450, 0x114D0, 0x11650, 0x116C0,
    0x11730, 0x118E0, 0x11950, 0x11C50, 0x11D50, 0x11DA0, 0x16A60, 0x16AC0,
    0x16B50, 0x1D7CE, 0x1D7D8, 0x1D7E2, 0x1D7EC, 0x1D7F6, 0x1E140, 0x1E2F0,
    0x1E950, 0x1FBF0]

/-- The ranges of digits that are not decimal digits, both ends included. -/
def otherDigitRanges : List (Nat × Nat) :=
  [(0x00B2, 0x00B3), (0x00B9, 0x00B9), (0x1369, 0x1371), (0x19DA, 0x19DA),
    (0x2070, 0x2070), (0x2074, 0x2079), (0x2080, 0x2089), (0x2460, 0x2468),
    (0x2474, 0x247C), (0x2488, 0x2490), (0x24EA, 0x24EA), (0x24F5, 0x24FD),
    (0x24FF, 0x24FF), (0x2776, 0x277E), (0x2780, 0x2788), (0x278A, 0x2792),
    (0x10A40, 0x10A43), (0x10E60, 0x10E68), (0x11052, 0x1105A), (0x1F100, 0x1F10A)]

/-- The value of a decimal digit. -/
def decimal? (c : CodePoint) : Option Nat :=
  (decimalZeros.find? fun z => z ≤ c.val && c.val < z + 10).map (c.val - ·)

/-- Digits of any kind. -/
def isDigit (c : CodePoint) : Bool :=
  c.isAsciiDigit || (0x80 ≤ c.val &&
    (c.decimal?.isSome || otherDigitRanges.any fun r => r.1 ≤ c.val && c.val ≤ r.2))

/-- The value of a digit in a base up to sixteen: a decimal digit, or a letter
`a … f` of either case. -/
def digitIn? (base : Nat) (c : CodePoint) : Option Nat :=
  match c.decimal? with
  | some d => if d < base then some d else none
  | none => if c.isHexDigit && c.hexValue < base then some c.hexValue else none

end CodePoint

end ProtoAtlas
