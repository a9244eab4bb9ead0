/-
# The exact decimals of double-precision numbers

Every finite number is `m * 2 ^ q`, so it has a finite decimal expansion
`p * 10 ^ -k`: for `q < 0` it is `(m * 5 ^ -q) * 10 ^ q`.  Rounding this decimal
gives the number back (`ofDecimal_exact`), because nothing is rounded: the last
place of the quotient is the exponent `q` the number is stored with
(`lastPlace_eq`), and measured in that place it is the natural number `m`.

Quotients of naturals are compared as rational numbers, where `lastPlace` is the
floor of a binary logarithm.
-/

import Mathlib.Algebra.Order.Field.Power
import Mathlib.Data.Int.Log
import Mathlib.Data.Rat.Floor
import Mathlib.Tactic.FieldSimp
import Mathlib.Tactic.Linarith
import Mathlib.Tactic.NormNum
import Mathlib.Tactic.Positivity
import Mathlib.Tactic.Ring
import ProtoAtlas.Number.Binary64

namespace ProtoAtlas
namespace Binary64

/-! ### Scaling and the last place -/

theorem scale_pos {n d : Nat} (hd : 0 < d) (q : Int) : 0 < (scale n d q).2 := by
  simp only [scale, Nat.pow_eq]
  split
  · positivity
  · exact hd

/-- What `scale` gives is the quotient measured in units of `2 ^ q`. -/
theorem scale_div (n d : Nat) (q : Int) :
    ((scale n d q).1 : ℚ) / (scale n d q).2 = (n : ℚ) / d / 2 ^ q := by
  simp only [scale, Nat.pow_eq]
  split
  · next h =>
    obtain ⟨k, rfl⟩ := Int.eq_ofNat_of_zero_le h
    simp [div_div]
  · next h =>
    obtain ⟨k, hk⟩ := Int.eq_ofNat_of_zero_le (show 0 ≤ -q by omega)
    rw [show q = -(k : Int) by omega]
    simp only [neg_neg, Int.toNat_natCast, Nat.cast_mul, Nat.cast_pow, Nat.cast_ofNat, zpow_neg,
      zpow_natCast, div_inv_eq_mul]
    ring

/-- The binary logarithms of numerator and denominator leave two exponents for the
quotient. -/
theorem log_div_bounds {n d : Nat} (hn : n ≠ 0) (hd : d ≠ 0) :
    (n.log2 : Int) - d.log2 - 1 ≤ Int.log 2 ((n : ℚ) / d) ∧
      Int.log 2 ((n : ℚ) / d) ≤ (n.log2 : Int) - d.log2 := by
  have hn0 : (0 : ℚ) < n := by exact_mod_cast Nat.pos_of_ne_zero hn
  have hd0 : (0 : ℚ) < d := by exact_mod_cast Nat.pos_of_ne_zero hd
  have quotient : (0 : ℚ) < (n : ℚ) / d := div_pos hn0 hd0
  have nLow : (2 : ℚ) ^ n.log2 ≤ n := by exact_mod_cast Nat.log2_self_le hn
  have dLow : (2 : ℚ) ^ d.log2 ≤ d := by exact_mod_cast Nat.log2_self_le hd
  have nHigh : (n : ℚ) < 2 ^ (n.log2 + 1) := by exact_mod_cast Nat.lt_log2_self
  have dHigh : (d : ℚ) < 2 ^ (d.log2 + 1) := by exact_mod_cast Nat.lt_log2_self
  constructor
  · refine (Int.zpow_le_iff_le_log (by norm_num) quotient).1 ?_
    rw [Nat.cast_ofNat, le_div_iff₀ hd0]
    calc (2 : ℚ) ^ ((n.log2 : Int) - d.log2 - 1) * d
      _ ≤ 2 ^ ((n.log2 : Int) - d.log2 - 1) * 2 ^ (d.log2 + 1) := by gcongr
      _ = 2 ^ n.log2 := by
        rw [← zpow_natCast, ← zpow_natCast, ← zpow_add₀ (by norm_num)]
        congr 1
        push_cast
        ring
      _ ≤ n := nLow
  · refine Int.lt_add_one_iff.1 ((Int.lt_zpow_iff_log_lt (by norm_num) quotient).1 ?_)
    rw [Nat.cast_ofNat, div_lt_iff₀ hd0]
    calc (n : ℚ)
      _ < 2 ^ (n.log2 + 1) := nHigh
      _ = 2 ^ ((n.log2 : Int) - d.log2 + 1) * 2 ^ d.log2 := by
        rw [← zpow_natCast, ← zpow_natCast, ← zpow_add₀ (by norm_num)]
        congr 1
        push_cast
        ring
      _ ≤ 2 ^ ((n.log2 : Int) - d.log2 + 1) * d := by gcongr

/-- **The last place is a binary logarithm**: 52 places below the first binary digit
of the quotient, but never below `-1074`. -/
theorem lastPlace_eq {n d : Nat} (hn : n ≠ 0) (hd : d ≠ 0) :
    lastPlace n d = max (Int.log 2 ((n : ℚ) / d) - 52) (-1074) := by
  obtain ⟨low, high⟩ := log_div_bounds hn hd
  have hd0 : (0 : ℚ) < d := by exact_mod_cast Nat.pos_of_ne_zero hd
  have quotient : (0 : ℚ) < (n : ℚ) / d :=
    div_pos (by exact_mod_cast Nat.pos_of_ne_zero hn) hd0
  generalize hk : (n.log2 : Int) - d.log2 = k at low high
  -- Which of the two exponents it is shows in a comparison with `2 ^ k`.
  have compare : (scale n d k).1 < (scale n d k).2 ↔ Int.log 2 ((n : ℚ) / d) < k := by
    have pos : (0 : ℚ) < (scale n d k).2 := by
      exact_mod_cast scale_pos (Nat.pos_of_ne_zero hd) k
    calc (scale n d k).1 < (scale n d k).2
      _ ↔ (n : ℚ) / d / 2 ^ k < 1 := by rw [← scale_div, div_lt_one pos, Nat.cast_lt]
      _ ↔ (n : ℚ) / d < 2 ^ k := div_lt_one (by positivity)
      _ ↔ Int.log 2 ((n : ℚ) / d) < k := Int.lt_zpow_iff_log_lt (by norm_num) quotient
  simp only [lastPlace, hk, compare]
  split <;> congr 1 <;> omega

theorem roundHalfEven_mul {d : Nat} (hd : 0 < d) (m : Nat) : roundHalfEven (m * d) d = m := by
  simp [roundHalfEven, Nat.mul_div_cancel m hd, hd]

/-! ### Words and their parts -/

/-- The word of a number is its significand counted in places from the least one. -/
theorem word_eq_parts (x : Binary64) :
    (x.parts.2 + 1074).toNat * 2 ^ 52 + x.parts.1 = x.word := by
  have split := Nat.div_add_mod x.word (2 ^ 52)
  simp only [parts, Nat.pow_eq]
  split_ifs with h
  · rw [h] at split
    simpa using split
  · have : ((x.word / 2 ^ 52 : Nat) : Int) - 1075 + 1074 = ((x.word / 2 ^ 52 - 1 : Nat) : Int) := by
      omega
    rw [this, Int.toNat_natCast]
    omega

/-- A significand has 53 binary digits, and fewer only at the least exponent. -/
theorem parts_bounds (x : Binary64) :
    x.parts.1 < 2 ^ 53 ∧ -1074 ≤ x.parts.2 ∧ (2 ^ 52 ≤ x.parts.1 ∨ x.parts.2 = -1074) := by
  have fraction : x.word % 2 ^ 52 < 2 ^ 52 := Nat.mod_lt _ (by norm_num)
  simp only [parts, Nat.pow_eq]
  split_ifs with h
  · exact ⟨by omega, le_refl _, Or.inr rfl⟩
  · exact ⟨by omega, by omega, Or.inl (by omega)⟩

/-- The exponent of a number is the last place of its value. -/
theorem lastPlace_parts {x : Binary64} (nonzero : x.parts.1 ≠ 0) {n d : Nat} (hn : n ≠ 0)
    (hd : d ≠ 0) (value : (n : ℚ) / d = x.parts.1 * 2 ^ x.parts.2) :
    lastPlace n d = x.parts.2 := by
  obtain ⟨high, least, low⟩ := parts_bounds x
  generalize x.parts.1 = m at *
  generalize x.parts.2 = q at *
  have hm : (0 : ℚ) < m := by exact_mod_cast Nat.pos_of_ne_zero nonzero
  have positive : (0 : ℚ) < m * 2 ^ q := by positivity
  have below : Int.log 2 ((m : ℚ) * 2 ^ q) < 53 + q := by
    refine (Int.lt_zpow_iff_log_lt (by norm_num) positive).1 ?_
    rw [Nat.cast_ofNat, zpow_add₀ (by norm_num)]
    have : (m : ℚ) < 2 ^ (53 : Int) := by exact_mod_cast high
    gcongr
  rw [lastPlace_eq hn hd, value]
  rcases low with low | low
  · have above : 52 + q ≤ Int.log 2 ((m : ℚ) * 2 ^ q) := by
      refine (Int.zpow_le_iff_le_log (by norm_num) positive).1 ?_
      rw [Nat.cast_ofNat, zpow_add₀ (by norm_num)]
      have : (2 : ℚ) ^ (52 : Int) ≤ m := by exact_mod_cast low
      gcongr
    omega
  · omega

/-- **A quotient that is a finite number rounds to that number.** -/
theorem roundedWord_parts {x : Binary64} (finite : x.word < infinityWord) {n d : Nat} (hd : d ≠ 0)
    (value : (n : ℚ) / d = x.parts.1 * 2 ^ x.parts.2) : roundedWord n d = x.word := by
  have hd0 : (d : ℚ) ≠ 0 := by exact_mod_cast hd
  have power : (2 : ℚ) ^ x.parts.2 ≠ 0 := by positivity
  simp only [roundedWord, Nat.pow_eq]
  split_ifs with hn
  · -- Only zero has the value zero, and its word is the significand.
    have zero : x.parts.1 = 0 := by
      rw [hn, Nat.cast_zero, zero_div, eq_comm, mul_eq_zero] at value
      exact_mod_cast value.resolve_right power
    have least : x.parts.2 = -1074 :=
      (parts_bounds x).2.2.resolve_left (by rw [zero]; norm_num)
    rw [← word_eq_parts, zero, least]
    rfl
  · have nonzero : x.parts.1 ≠ 0 := by
      intro zero
      rw [zero, Nat.cast_zero, zero_mul, div_eq_zero_iff] at value
      exact hn (by exact_mod_cast value.resolve_right hd0)
    have place := lastPlace_parts nonzero hn hd value
    have pos := scale_pos (n := n) (Nat.pos_of_ne_zero hd) x.parts.2
    have whole : (scale n d x.parts.2).1 = x.parts.1 * (scale n d x.parts.2).2 := by
      have quotient := scale_div n d x.parts.2
      rw [value, mul_div_assoc, div_self power, mul_one,
        div_eq_iff (by exact_mod_cast pos.ne')] at quotient
      exact_mod_cast quotient
    simp only [place, whole, roundHalfEven_mul pos, word_eq_parts]
    exact min_eq_right finite.le

theorem ofWord_word (x : Binary64) : ofWord x.isNegative x.word = x := by
  obtain ⟨bits⟩ := x
  have small : bits.toNat < 2 ^ 64 := bits.toNat_lt
  have whole : (if 2 ^ 63 ≤ bits.toNat then 2 ^ 63 else 0) + bits.toNat % 2 ^ 63 = bits.toNat := by
    split <;> omega
  simp only [ofWord, isNegative, word, Nat.pow_eq, decide_eq_true_eq, whole]
  rw [UInt64.ofNat_toNat]

theorem eq_infinity {x : Binary64} (h : x.isInfinite = true) : x = infinity x.isNegative := by
  rw [isInfinite, decide_eq_true_eq] at h
  rw [infinity, ← h, ofWord_word]

theorem word_lt_infinityWord {x : Binary64} (number : ¬x.isNaN = true)
    (finite : ¬x.isInfinite = true) : x.word < infinityWord := by
  rw [isNaN, decide_eq_true_eq] at number
  rw [isInfinite, decide_eq_true_eq] at finite
  omega

/-! ### Exact decimals -/

/-- The number of decimal places of a finite number. -/
def places (x : Binary64) : Nat :=
  (-x.parts.2).toNat

/-- The magnitude of a finite number without its decimal point. -/
def digits (x : Binary64) : Nat :=
  x.parts.1 * (if 0 ≤ x.parts.2 then 2 ^ x.parts.2.toNat else 5 ^ x.places)

theorem digits_div (x : Binary64) :
    (x.digits : ℚ) / (10 ^ x.places : Nat) = x.parts.1 * 2 ^ x.parts.2 := by
  unfold digits places
  split_ifs with h
  · obtain ⟨k, hk⟩ := Int.eq_ofNat_of_zero_le h
    simp [hk]
  · obtain ⟨k, hk⟩ := Int.eq_ofNat_of_zero_le (show 0 ≤ -x.parts.2 by omega)
    rw [show x.parts.2 = -(k : Int) by omega, neg_neg, Int.toNat_natCast, zpow_neg, zpow_natCast]
    push_cast
    rw [show (10 : ℚ) = 5 * 2 by norm_num, mul_pow]
    field_simp

/-- The exact decimal has at least as many binary digits as decimal places. -/
theorem places_le_log2_digits {x : Binary64} (nonzero : x.digits ≠ 0) :
    x.places ≤ x.digits.log2 := by
  rw [Nat.le_log2 nonzero]
  unfold digits places at *
  split_ifs with h
  · rw [if_pos h] at nonzero
    rw [show (-x.parts.2).toNat = 0 by omega]
    exact Nat.pos_of_ne_zero nonzero
  · rw [if_neg h] at nonzero
    have significand : 1 ≤ x.parts.1 :=
      Nat.pos_of_ne_zero fun zero => nonzero (by rw [zero, Nat.zero_mul])
    calc 2 ^ (-x.parts.2).toNat
      _ ≤ 5 ^ (-x.parts.2).toNat := Nat.pow_le_pow_left (by norm_num) _
      _ ≤ x.parts.1 * 5 ^ (-x.parts.2).toNat := Nat.le_mul_of_pos_left _ significand

/-- **Rounding the exact decimal of a finite number gives the number back.** -/
theorem ofDecimal_exact {x : Binary64} (finite : x.word < infinityWord) :
    ofDecimal x.isNegative x.digits (-(x.places : Int)) = x := by
  have rounded : roundedWord x.digits (10 ^ x.places) = x.word :=
    roundedWord_parts finite (by positivity) (digits_div x)
  simp only [ofDecimal, Nat.pow_eq]
  split_ifs with zero large small whole
  · rw [zero] at rounded
    conv_rhs => rw [← ofWord_word x, ← rounded]
    rfl
  · omega
  · have := places_le_log2_digits zero
    omega
  · have none : x.places = 0 := by omega
    rw [none, Nat.pow_zero] at rounded
    simp only [none, ofRatio, Nat.cast_zero, neg_zero, Int.toNat_zero, Nat.pow_zero, Nat.mul_one,
      rounded, ofWord_word]
  · simp only [neg_neg, Int.toNat_natCast, ofRatio, rounded, ofWord_word]

end Binary64
end ProtoAtlas
