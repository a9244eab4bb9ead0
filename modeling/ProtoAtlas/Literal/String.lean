/-
# String literals

A string literal stands between two equal quotes.  Its value is the text
between them with the escapes decoded:

| escape | value |
| --- | --- |
| `\a \b \f \n \r \t \v` | the control characters 7, 8, 12, 10, 13, 9, 11 |
| `\\ \' \" \?` | the character itself |
| `\x`, `\X` and one or two hexadecimal digits | the code point with that number |
| one to three octal digits | the code point with that number |
| `\u` and four, `\U` and eight hexadecimal digits | the code point with that number |

A `\U` escape beyond the last code point keeps its spelling.  A backslash before
anything else is dropped, and one at the end stays.  A literal without its
closing quote is decoded as far as it goes.
-/

import ProtoAtlas.Text.CodePoint

namespace ProtoAtlas
namespace Literal

/-- The value of an escape that is one letter or sign. -/
def simpleEscape? (e : CodePoint) : Option CodePoint :=
  if e = CodePoint.ofChar 'a' then some (CodePoint.ofChar '\x07')
  else if e = CodePoint.ofChar 'b' then some (CodePoint.ofChar '\x08')
  else if e = CodePoint.ofChar 'f' then some (CodePoint.ofChar '\x0c')
  else if e = CodePoint.ofChar 'n' then some (CodePoint.ofChar '\n')
  else if e = CodePoint.ofChar 'r' then some (CodePoint.ofChar '\r')
  else if e = CodePoint.ofChar 't' then some (CodePoint.ofChar '\t')
  else if e = CodePoint.ofChar 'v' then some (CodePoint.ofChar '\x0b')
  else if e = CodePoint.ofChar '\\' ∨ e = CodePoint.ofChar '\'' ∨ e = CodePoint.ofChar '"' ∨
      e = CodePoint.ofChar '?' then some e
  else none

/-- At most `limit` characters in front that satisfy a test. -/
def takeUpTo (limit : Nat) (p : CodePoint → Bool) (t : Text) : Text :=
  (t.take limit).takeWhile p

/-- The number that digits of a base spell. -/
def numberOf (base : Nat) (digits : Text) : Nat :=
  digits.foldl (fun n c => n * base + c.hexValue) 0

/-- The code point with a number, as a text; nothing beyond the last one. -/
def charOf (n : Nat) : Text :=
  (CodePoint.ofNat? n).toList

/-- The value of the escape that starts with a backslash and `e`, and how many of
the characters after `e` belong to it. -/
def escape (e : CodePoint) (rest : Text) : Text × Nat :=
  match simpleEscape? e with
  | some c => ([c], 0)
  | none =>
    if e.toLower = CodePoint.ofChar 'x' then
      let digits := takeUpTo 2 CodePoint.isHexDigit rest
      if digits.isEmpty then ([e], 0) else (charOf (numberOf 16 digits), digits.length)
    else if e.isOctalDigit then
      let digits := takeUpTo 2 CodePoint.isOctalDigit rest
      (charOf (numberOf 8 (e :: digits)), digits.length)
    else if e.toLower = CodePoint.ofChar 'u' then
      let width := if e = CodePoint.ofChar 'u' then 4 else 8
      let digits := takeUpTo width CodePoint.isHexDigit rest
      if digits.length = width then
        if numberOf 16 digits < 0x110000 then (charOf (numberOf 16 digits), width)
        else (CodePoint.ofChar '\\' :: e :: digits, width)
      else ([e], 0)
    else ([e], 0)

/-- The text between the quotes, with the escapes decoded. -/
def unescape (t : Text) : Text :=
  match t with
  | [] => []
  | [c] => [c]
  | c :: e :: rest =>
    if c = CodePoint.ofChar '\\' then
      let (value, more) := escape e rest
      value ++ unescape (rest.drop more)
    else c :: unescape (e :: rest)
termination_by t.length
decreasing_by
  · simp only [List.length_drop, List.length_cons]
    omega
  · simp

/-- Whether a text ends in an odd number of backslashes. -/
def endsInEscape (t : Text) : Bool :=
  (t.reverse.takeWhile (· = CodePoint.ofChar '\\')).length % 2 = 1

/-- The text of a literal after its opening quote, without its closing quote if
it has one. -/
def dropClosingQuote (quote : CodePoint) (body : Text) : Text :=
  if body.getLast? = some quote && !endsInEscape body.dropLast then body.dropLast else body

/-- The value of a string literal.  A text that starts with no quote is its own
value. -/
def stringValue (raw : Text) : Text :=
  match raw with
  | [] => []
  | quote :: body =>
    if quote = CodePoint.ofChar '"' ∨ quote = CodePoint.ofChar '\'' then
      unescape (dropClosingQuote quote body)
    else raw

/-- How a code point is written inside a double-quoted literal. -/
def escapeChar (c : CodePoint) : Text :=
  if c = CodePoint.ofChar '\\' then "\\\\"
  else if c = CodePoint.ofChar '"' then "\\\""
  else if c = CodePoint.ofChar '\n' then "\\n"
  else [c]

/-- The double-quoted literal of a text. -/
def quote (t : Text) : Text :=
  CodePoint.ofChar '"' :: t.flatMap escapeChar ++ [CodePoint.ofChar '"']

end Literal
end ProtoAtlas
