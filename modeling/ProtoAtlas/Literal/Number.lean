/-
# Number literals

An integer literal is an optional sign and digits: hexadecimal after `0x`,
octal after a leading `0`, and decimal otherwise.  What follows the sign and the
marker is read by the rules of `Radix.read?`, so it may bring white space,
underscores and a sign of its own.

A real literal is a real number, or else an integer literal rounded to the
nearest real number.
-/

import ProtoAtlas.Number.Integer
import ProtoAtlas.Number.Real

namespace ProtoAtlas
namespace Literal

/-- Why a number literal has no answer. -/
inductive NumberError where
  /-- There is no text. -/
  | empty
  /-- The word for an infinity or for no number has more than one sign. -/
  | repeatedSign
  /-- The integer lies beyond the largest real number. -/
  | tooLarge
  deriving DecidableEq

/-- The magnitude part of an integer literal. -/
def magnitude? (body : Text) : Option Int :=
  match body with
  | zero :: mark :: rest =>
    if zero = CodePoint.ofChar '0' then
      if mark = CodePoint.ofChar 'x' ∨ mark = CodePoint.ofChar 'X' then Radix.hexadecimal.read? rest
      else Radix.octal.read? (mark :: rest)
    else Radix.decimal.read? body
  | _ => Radix.decimal.read? body

/-- The value of an integer literal; `none` for a text that is not one. -/
def integer (t : Text) : Except NumberError (Option Int) :=
  if t.isEmpty then .error .empty
  else
    let (negative, body) := Radix.splitSign t
    .ok ((magnitude? body).map fun n => if negative then -n else n)

/-- A text without the signs in front. -/
def dropSigns (t : Text) : Text :=
  t.dropWhile fun c => c = CodePoint.ofChar '+' || c = CodePoint.ofChar '-'

/-- The words for an infinity and for no number. -/
def isSpecialWord (t : Text) : Bool :=
  t = ("inf" : Text) || t = ("infinity" : Text) || t = ("nan" : Text)

/-- The value of a real literal; `none` for a text that is not one. -/
def real (t : Text) : Except NumberError (Option Binary64) :=
  if isSpecialWord (dropSigns t.lower) then
    match Binary64.read? t.lower with
    | some x => .ok (some x)
    | none => .error .repeatedSign
  else
    match Binary64.read? t with
    | some x => .ok (some x)
    | none =>
      match integer t with
      | .error e => .error e
      | .ok none => .ok none
      | .ok (some n) =>
        match Binary64.ofInt? n with
        | some x => .ok (some x)
        | none => .error .tooLarge

end Literal
end ProtoAtlas
