/-
# Integers as text

An integer is written as an optional sign and digits of its base, with white
space allowed around it.  One underscore may stand between two digits.  In base
eight the digits may follow the marker `0o`, in base sixteen `0x`, in either
case of the letter, and one underscore may stand between marker and digits.
Digits are the decimal digits of any script and the letters `a … f`.

Decimal text is limited to `maxDecimalDigits` digits in both directions: longer
text is not read, and an integer with more digits is not written.
-/

import ProtoAtlas.Text.Blank
import ProtoAtlas.Text.Digit

namespace ProtoAtlas

/-- The bases an integer can be written in. -/
inductive Radix where
  | octal
  | decimal
  | hexadecimal
  deriving DecidableEq

/-- The most digits a decimal integer may have. -/
def maxDecimalDigits : Nat := 4300

namespace Radix

/-- The number of digits of the base. -/
def base : Radix → Nat
  | .octal => 8
  | .decimal => 10
  | .hexadecimal => 16

/-- The letter that follows `0` in the marker of the base. -/
def marker? : Radix → Option Char
  | .octal => some 'o'
  | .decimal => none
  | .hexadecimal => some 'x'

/-- Digits of a base, with at most one underscore between neighbours. -/
def digitRun? (base : Nat) : Text → Option (List Nat)
  | [] => none
  | [c] => (c.digitIn? base).map ([·])
  | c :: u :: cs =>
    match c.digitIn? base with
    | none => none
    | some d =>
      if u = CodePoint.ofChar '_' then (digitRun? base cs).map (d :: ·)
      else (digitRun? base (u :: cs)).map (d :: ·)

/-- The number that digits spell, the most significant first. -/
def ofDigits (base : Nat) (digits : List Nat) : Nat :=
  digits.foldl (fun n d => n * base + d) 0

/-- Removes the marker of the base and an underscore right after it. -/
def dropMarker (r : Radix) (t : Text) : Text :=
  match r.marker?, t with
  | some letter, zero :: mark :: rest =>
    if zero = CodePoint.ofChar '0' ∧ mark.toLower = CodePoint.ofChar letter then
      match rest with
      | u :: digits => if u = CodePoint.ofChar '_' then digits else rest
      | [] => rest
    else t
  | _, _ => t

/-- Whether a text starts with `-`, and the text without its sign. -/
def splitSign : Text → Bool × Text
  | [] => (false, [])
  | c :: cs =>
    if c = CodePoint.ofChar '-' then (true, cs)
    else if c = CodePoint.ofChar '+' then (false, cs)
    else (false, c :: cs)

/-- The integer with a sign and a magnitude. -/
def signed (negative : Bool) (n : Nat) : Int :=
  if negative then -(n : Int) else n

/-- The integer a text spells in a base. -/
def read? (r : Radix) (t : Text) : Option Int :=
  let (negative, body) := splitSign (t.strip CodePoint.isNumberPadding)
  match digitRun? r.base (r.dropMarker body) with
  | none => none
  | some digits =>
    if r = .decimal ∧ maxDecimalDigits < digits.length then none
    else some (signed negative (ofDigits r.base digits))

end Radix

/-- The decimal text of an integer, if it has at most `maxDecimalDigits`
digits. -/
def decimalText? (n : Int) : Option Text :=
  if n.natAbs < Nat.pow 10 maxDecimalDigits then
    some (if n < 0 then CodePoint.ofChar '-' :: Text.ofNat n.natAbs else Text.ofNat n.natAbs)
  else none

end ProtoAtlas
