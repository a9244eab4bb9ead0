/-
# Double-precision numbers

A number is kept as its 64-bit word, so that equality is equality of words.
A finite number has the value `m * 2 ^ q` with `m < 2 ^ 53` and `-1074 ≤ q`;
its word without the sign is `(q + 1074) * 2 ^ 52 + m`, where `m < 2 ^ 52` only
for `q = -1074`.  Because a significand that rounds up to `2 ^ 53` carries into
the exponent in this sum, rounding needs no case of its own.

Rounding is to the nearest number; of two equally near the one with the even
significand is taken, and a value beyond the largest finite number becomes an
infinity.
-/

namespace ProtoAtlas

/-- A double-precision number. -/
structure Binary64 where
  /-- Sign, exponent and fraction, from the highest bit to the lowest. -/
  bits : UInt64
  deriving DecidableEq

namespace Binary64

/-- The word of an infinity, without the sign. -/
def infinityWord : Nat := 2047 * Nat.pow 2 52

/-- A number from its sign and its word without the sign. -/
def ofWord (negative : Bool) (word : Nat) : Binary64 :=
  ⟨UInt64.ofNat ((if negative then Nat.pow 2 63 else 0) + word)⟩

/-- An infinity. -/
def infinity (negative : Bool) : Binary64 :=
  ofWord negative infinityWord

/-- The result that is no number. -/
def nan : Binary64 :=
  ofWord false (infinityWord + Nat.pow 2 51)

/-- Whether the sign bit is set. -/
def isNegative (x : Binary64) : Bool :=
  Nat.pow 2 63 ≤ x.bits.toNat

/-- The word without the sign. -/
def word (x : Binary64) : Nat :=
  x.bits.toNat % Nat.pow 2 63

/-- Whether this is no number. -/
def isNaN (x : Binary64) : Bool :=
  infinityWord < x.word

/-- Whether this is an infinity. -/
def isInfinite (x : Binary64) : Bool :=
  x.word = infinityWord

/-- Significand and exponent of the magnitude of a finite number. -/
def parts (x : Binary64) : Nat × Int :=
  let exponent : Nat := x.word / Nat.pow 2 52
  let fraction : Nat := x.word % Nat.pow 2 52
  if exponent = 0 then (fraction, -1074) else (fraction + Nat.pow 2 52, (exponent : Int) - 1075)

/-- The natural number nearest to `n / d`; a tie goes to the even one. -/
def roundHalfEven (n d : Nat) : Nat :=
  let whole := n / d
  let twice := 2 * (n % d)
  if twice < d then whole
  else if d < twice then whole + 1
  else if whole % 2 = 0 then whole else whole + 1

/-- Numerator and denominator of `n / d / 2 ^ q`. -/
def scale (n d : Nat) (q : Int) : Nat × Nat :=
  if 0 ≤ q then (n, d * Nat.pow 2 q.toNat) else (n * Nat.pow 2 (-q).toNat, d)

/-- The exponent of the last place of the number nearest to `n / d`, for
positive `n` and `d`. -/
def lastPlace (n d : Nat) : Int :=
  let k : Int := (n.log2 : Int) - d.log2
  let (n', d') := scale n d k
  let e := if n' < d' then k - 1 else k
  max (e - 52) (-1074)

/-- The word, without sign, of the number nearest to `n / d` for positive `d`. -/
def roundedWord (n d : Nat) : Nat :=
  if n = 0 then 0
  else
    let q := lastPlace n d
    let (n', d') := scale n d q
    min infinityWord ((q + 1074).toNat * Nat.pow 2 52 + roundHalfEven n' d')

/-- The number nearest to `n / d`, with a sign. -/
def ofRatio (negative : Bool) (n d : Nat) : Binary64 :=
  ofWord negative (roundedWord n d)

/-- The number nearest to `m * 10 ^ e`, with a sign.  Beyond four hundred powers
of ten the answer is an infinity or a zero, whatever the rest. -/
def ofDecimal (negative : Bool) (m : Nat) (e : Int) : Binary64 :=
  if m = 0 then ofWord negative 0
  else if 400 < e then infinity negative
  else if e + (m.log2 + 1) < -400 then ofWord negative 0
  else if 0 ≤ e then ofRatio negative (m * Nat.pow 10 e.toNat) 1
  else ofRatio negative m (Nat.pow 10 (-e).toNat)

/-- The number nearest to an integer, if that is finite. -/
def ofInt? (n : Int) : Option Binary64 :=
  let word := roundedWord n.natAbs 1
  if word < infinityWord then some (ofWord (n < 0) word) else none

end Binary64

end ProtoAtlas
