/-
# Real numbers as text

A real number is written as an optional sign and either one of the words
`inf`, `infinity` and `nan` in any case, or digits with an optional point and an
optional exponent; at least one digit stands before or after the point.  White
space may surround it, and one underscore may stand between two digits.  Digits
are the decimal digits of any script.
-/

import ProtoAtlas.Number.Binary64
import ProtoAtlas.Number.Integer

namespace ProtoAtlas
namespace Binary64

/-- Whether a code point is a decimal digit. -/
def isDecimalDigit (c : CodePoint) : Bool :=
  c.decimal?.isSome

/-- Removes the underscores of a text, if each stands between two digits. -/
def dropBreaks? (afterDigit : Bool) : Text → Option Text
  | [] => some []
  | c :: cs =>
    if c = CodePoint.ofChar '_' then
      if afterDigit && (cs.head?.map isDecimalDigit).getD false then dropBreaks? false cs else none
    else (dropBreaks? (isDecimalDigit c) cs).map (c :: ·)

/-- The number that decimal digits spell. -/
def ofDecimalDigits (t : Text) : Nat :=
  Radix.ofDigits 10 (t.filterMap CodePoint.decimal?)

/-- The exponent part of a number: nothing, or `e`, an optional sign and
digits. -/
def exponent? : Text → Option Int
  | [] => some 0
  | c :: cs =>
    if c.toLower = CodePoint.ofChar 'e' then
      let (negative, digits) := Radix.splitSign cs
      if digits.isEmpty || !digits.all isDecimalDigit then none
      else some (Radix.signed negative (ofDecimalDigits digits))
    else none

/-- A number without sign, as digits with an optional point and exponent. -/
def unsigned? (negative : Bool) (t : Text) : Option Binary64 :=
  let whole := t.takeWhile isDecimalDigit
  let rest := t.dropWhile isDecimalDigit
  let (fraction, rest) : Text × Text := match rest with
    | c :: cs =>
      if c = CodePoint.ofChar '.' then (cs.takeWhile isDecimalDigit, cs.dropWhile isDecimalDigit)
      else ([], rest)
    | [] => ([], [])
  if whole.isEmpty && fraction.isEmpty then none
  else
    (exponent? rest).map fun e =>
      ofDecimal negative (ofDecimalDigits (whole ++ fraction)) (e - fraction.length)

/-- The words for numbers that have no digits. -/
def special? (negative : Bool) (t : Text) : Option Binary64 :=
  let t := t.lower
  if t = ("inf" : Text) ∨ t = ("infinity" : Text) then some (infinity negative)
  else if t = ("nan" : Text) then some nan
  else none

/-- The number a text spells. -/
def read? (t : Text) : Option Binary64 := do
  let plain ← dropBreaks? false (t.strip CodePoint.isNumberPadding)
  let (negative, body) := Radix.splitSign plain
  (special? negative body).or (unsigned? negative body)

end Binary64
end ProtoAtlas
