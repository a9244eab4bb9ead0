/-
# Quoted text

How a text is shown inside a message.  It stands between single quotes, or
between double quotes if it holds a single quote and no double quote.  Inside,
the quote in use and the backslash get a backslash, line feed, carriage return
and tab are `\n`, `\r` and `\t`, and any other unprintable code point is
written with its hexadecimal number: `\xNN`, `\uNNNN` or `\UNNNNNNNN`, the
shortest that holds it.
-/

import ProtoAtlas.Text.Printable

namespace ProtoAtlas
namespace Text

/-- A number in lower-case hexadecimal, with leading zeros up to a width. -/
def hex (width : Nat) (n : Nat) : Text :=
  let digits := Nat.toDigits 16 n
  (List.replicate (width - digits.length) '0' ++ digits).map CodePoint.ofChar

/-- The shape of an unprintable code point. -/
def numericEscape (c : CodePoint) : Text :=
  if c.val < 0x100 then "\\x" ++ hex 2 c.val
  else if c.val < 0x10000 then "\\u" ++ hex 4 c.val
  else "\\U" ++ hex 8 c.val

/-- The quote that stands around a text. -/
def quoteFor (t : Text) : CodePoint :=
  if t.contains (CodePoint.ofChar '\'') && !t.contains (CodePoint.ofChar '"') then '"' else '\''

/-- How one code point is shown between two quotes. -/
def quotedChar (quote c : CodePoint) : Text :=
  if c = quote ∨ c = CodePoint.ofChar '\\' then [CodePoint.ofChar '\\', c]
  else if c = CodePoint.ofChar '\n' then "\\n"
  else if c = CodePoint.ofChar '\r' then "\\r"
  else if c = CodePoint.ofChar '\t' then "\\t"
  else if c.isPrintable then [c]
  else numericEscape c

/-- A text as it is shown in a message. -/
def quoted (t : Text) : Text :=
  let quote := quoteFor t
  quote :: t.flatMap (quotedChar quote) ++ [quote]

end Text
end ProtoAtlas
