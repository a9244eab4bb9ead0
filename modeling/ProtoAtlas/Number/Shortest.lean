/-
# The fewest digits that read back

`Binary64.shortest` gives the decimal `p * 10 ^ k` with which a positive finite
number is written: of all decimals that round to the number it lies on the
coarsest grid of powers of ten, and of those on that grid it is the nearest to
the number; a tie goes to the even `p`.

The reals that round to `m * 2 ^ q` form an interval around it that reaches
half a place up and half a place down, or a quarter down where the number is the
least with its exponent.  The ends belong to it exactly when `m` is even.  On
any grid, if some point lies in the interval, so does one of the two neighbours
of the number.
-/

import ProtoAtlas.Number.Binary64
import ProtoAtlas.Number.Integer

namespace ProtoAtlas
namespace Binary64

/-- The decimal `p * 10 ^ k`. -/
structure Decimal where
  p : Nat
  k : Int
  deriving DecidableEq

/-- The point of the grid of step `10 ^ k` that lies in the rounding interval of
`m * 2 ^ q`, the nearest if there are two. -/
def onGrid? (m : Nat) (q k : Int) : Option Nat :=
  let s := q - 2
  let number := Nat.pow 2 s.toNat * Nat.pow 10 (-k).toNat
  let grid := Nat.pow 10 k.toNat * Nat.pow 2 (-s).toNat
  let low := (if m = Nat.pow 2 52 ∧ -1074 < q then 4 * m - 1 else 4 * m - 2) * number
  let high := (4 * m + 2) * number
  let inside (p : Nat) : Bool :=
    if m % 2 = 0 then low ≤ p * grid && p * grid ≤ high
    else low < p * grid && p * grid < high
  let value := 4 * m * number
  let below := value / grid
  let above := below + 1
  match inside below, inside above with
  | false, false => none
  | true, false => some below
  | false, true => some above
  | true, true =>
    let down := value - below * grid
    let up := above * grid - value
    if down < up then some below
    else if up < down then some above
    else if below % 2 = 0 then some below else some above

/-- The first of the grids `10 ^ k`, `10 ^ (k - 1)`, … that has a point in the
rounding interval. -/
def firstGrid (m : Nat) (q : Int) : Nat → Int → Decimal
  | 0, k => ⟨0, k⟩
  | fuel + 1, k =>
    match onGrid? m q k with
    | some p => ⟨p, k⟩
    | none => firstGrid m q fuel (k - 1)

/-- The shortest decimal of `m * 2 ^ q`.  The search starts at a power of ten
above the interval; seventeen digits always suffice. -/
def shortest (m : Nat) (q : Int) : Decimal :=
  firstGrid m q 25 (((m.log2 : Int) + q + 2) * 30103 / 100000 + 2)

/-- How numbers are laid out.  Between `10 ^ -4` and `10 ^ 16` they are written
without an exponent and always with a point; otherwise one digit stands before
the point, and the exponent has a sign and at least two digits. -/
def layout (digits : Text) (point : Int) : Text :=
  let zeros (n : Int) : Text := List.replicate n.toNat (CodePoint.ofChar '0')
  if -4 < point ∧ point ≤ 16 then
    if point ≤ 0 then "0." ++ zeros (-point) ++ digits
    else if (digits.length : Int) ≤ point then digits ++ zeros (point - digits.length) ++ ".0"
    else digits.take point.toNat ++ "." ++ digits.drop point.toNat
  else
    let mantissa := match digits with
      | [] => []
      | [d] => [d]
      | d :: ds => d :: CodePoint.ofChar '.' :: ds
    let e := point - 1
    let size := Text.ofNat e.natAbs
    mantissa ++ (if e < 0 then "e-" else "e+") ++ zeros (2 - size.length) ++ size

/-- A number as text. -/
def text (x : Binary64) : Text :=
  let sign : Text := if x.isNegative then "-" else ""
  if x.isNaN then "nan"
  else if x.isInfinite then sign ++ "inf"
  else if x.word = 0 then sign ++ "0.0"
  else
    let (m, q) := x.parts
    let d := shortest m q
    let digits := Text.ofNat d.p
    sign ++ layout digits (d.k + digits.length)

end Binary64
end ProtoAtlas
