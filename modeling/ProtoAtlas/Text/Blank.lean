/-
# White space

The white-space characters of Unicode together with the four information
separators `U+001C … U+001F`.  The zero-width characters `U+200B`, `U+FEFF` and
`U+180E` are not among them.
-/

import ProtoAtlas.Text.CodePoint

namespace ProtoAtlas

namespace CodePoint

/-- The ranges of white space, both ends included. -/
def blankRanges : List (Nat × Nat) :=
  [(0x0009, 0x000D), (0x001C, 0x0020), (0x0085, 0x0085), (0x00A0, 0x00A0), (0x1680, 0x1680),
    (0x2000, 0x200A), (0x2028, 0x2029), (0x202F, 0x202F), (0x205F, 0x205F), (0x3000, 0x3000)]

/-- White space. -/
def isBlank (c : CodePoint) : Bool :=
  blankRanges.any fun r => r.1 ≤ c.val && c.val ≤ r.2

/-- The white space that may surround a number: the information separators
are left out. -/
def isNumberPadding (c : CodePoint) : Bool :=
  c.isBlank && !(0x1C ≤ c.val && c.val ≤ 0x1F)

end CodePoint

/-- Removes white space from both ends. -/
def Text.trim (t : Text) : Text :=
  t.strip CodePoint.isBlank

end ProtoAtlas
