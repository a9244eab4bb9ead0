/-
# UTF-8 reads back

The bytes of a code point that is no surrogate are read back as that code point, whatever
follows (`Utf8.decodeLossyFrom_encodeChar`): the first byte tells how many tail bytes are
owed, each tail byte lies in the range the decoder asks for, and the bits put together are
the number of the code point.  So a text without surrogates survives its bytes
(`Utf8.decodeLossy_encode`).
-/

import ProtoAtlas.Text.Utf8

namespace ProtoAtlas
namespace Utf8

theorem toNat_ofNat {n : Nat} (h : n < 256) : (UInt8.ofNat n).toNat = n := by
  rw [UInt8.toNat_ofNat']
  omega

/-! ### First bytes -/

theorem next_first_one {n : Nat} (h : n < 0x80) :
    next none (UInt8.ofNat n) = .char ⟨n, by omega⟩ := by
  unfold next first
  simp only [toNat_ofNat (show n < 256 by omega)]
  rw [dif_pos h]

theorem next_first_two {x : Nat} (low : 2 ≤ x) (high : x < 32) :
    next none (UInt8.ofNat (0xC0 + x)) = .more ⟨UInt8.ofNat (0xC0 + x), 1, 0, 0x80, 0xBF, x⟩ := by
  unfold next first
  simp only [toNat_ofNat (show 0xC0 + x < 256 by omega), Nat.add_sub_cancel_left]
  rw [dif_neg (by omega), if_neg (by omega), if_pos (by omega)]

/-- After `E0` the next byte keeps overlong forms out, after `ED` surrogates. -/
theorem next_first_three {x : Nat} (h : x < 16) :
    next none (UInt8.ofNat (0xE0 + x)) = .more ⟨UInt8.ofNat (0xE0 + x), 1, 1,
      if x = 0 then 0xA0 else 0x80, if x = 13 then 0x9F else 0xBF, x⟩ := by
  unfold next first
  simp only [toNat_ofNat (show 0xE0 + x < 256 by omega), Nat.add_sub_cancel_left]
  rw [dif_neg (by omega), if_neg (by omega), if_neg (by omega)]
  by_cases zero : x = 0
  · rw [if_pos (by omega), if_pos zero, if_neg (by omega)]
  · rw [if_neg (by omega), if_neg zero]
    by_cases surrogate : x = 13
    · rw [if_pos (by omega), if_pos surrogate]
    · rw [if_neg (by omega), if_pos (by omega), if_neg surrogate]

/-- After `F0` the next byte keeps overlong forms out, after `F4` numbers that are too big. -/
theorem next_first_four {x : Nat} (h : x < 5) :
    next none (UInt8.ofNat (0xF0 + x)) = .more ⟨UInt8.ofNat (0xF0 + x), 1, 2,
      if x = 0 then 0x90 else 0x80, if x = 4 then 0x8F else 0xBF, x⟩ := by
  unfold next first
  simp only [toNat_ofNat (show 0xF0 + x < 256 by omega), Nat.add_sub_cancel_left]
  rw [dif_neg (by omega), if_neg (by omega), if_neg (by omega), if_neg (by omega),
    if_neg (by omega), if_neg (by omega)]
  by_cases zero : x = 0
  · rw [if_pos (by omega), if_pos zero, if_neg (by omega)]
  · rw [if_neg (by omega), if_neg zero]
    by_cases last : x = 4
    · rw [if_neg (by omega), if_pos (by omega), if_pos last]
    · rw [if_pos (by omega), if_neg last]

/-! ### Tail bytes -/

/-- A tail byte that is not the last adds its six bits. -/
theorem next_more {b : UInt8} {width owed low high bits x : Nat} (h : x < 64)
    (inRange : low ≤ 0x80 + x ∧ 0x80 + x ≤ high) :
    next (some ⟨b, width, owed + 1, low, high, bits⟩) (UInt8.ofNat (0x80 + x)) =
      .more ⟨b, width + 1, owed, 0x80, 0xBF, bits * 64 + x⟩ := by
  unfold next Partial.next
  simp only [toNat_ofNat (show 0x80 + x < 256 by omega), Nat.add_sub_cancel_left]
  rw [if_pos inRange]

/-- The last tail byte completes the number. -/
theorem next_char {b : UInt8} {width low high bits x : Nat} {c : CodePoint} (h : x < 64)
    (inRange : low ≤ 0x80 + x ∧ 0x80 + x ≤ high) (number : bits * 64 + x = c.val) :
    next (some ⟨b, width, 0, low, high, bits⟩) (UInt8.ofNat (0x80 + x)) = .char c := by
  unfold next Partial.next
  simp only [toNat_ofNat (show 0x80 + x < 256 by omega), Nat.add_sub_cancel_left, number]
  rw [if_pos inRange, CodePoint.ofNat?, dif_pos c.val_lt]

/-! ### Characters and texts -/

theorem decodeLossyFrom_char {p : Option Partial} {b : UInt8} {c : CodePoint}
    (h : next p b = .char c) (rest : List UInt8) :
    decodeLossyFrom p (b :: rest) = c :: decodeLossyFrom none rest := by
  rw [decodeLossyFrom.eq_def p (b :: rest)]
  simp only [h]

theorem decodeLossyFrom_more {p : Option Partial} {b : UInt8} {q : Partial} (h : next p b = .more q)
    (rest : List UInt8) : decodeLossyFrom p (b :: rest) = decodeLossyFrom (some q) rest := by
  rw [decodeLossyFrom.eq_def p (b :: rest)]
  simp only [h]

/-- **The bytes of a code point are read back**, whatever follows. -/
theorem decodeLossyFrom_encodeChar {c : CodePoint} (scalar : c.isSurrogate = false)
    (rest : List UInt8) :
    decodeLossyFrom none (encodeChar c ++ rest) = c :: decodeLossyFrom none rest := by
  have bound := c.val_lt
  have noSurrogate : c.val < 0xD800 ∨ 0xDFFF < c.val := by
    simp only [CodePoint.isSurrogate, Bool.and_eq_false_iff, decide_eq_false_iff_not] at scalar
    omega
  simp only [encodeChar, Nat.shiftRight_eq_div_pow, Nat.reducePow, Nat.div_one]
  split
  · next one => exact decodeLossyFrom_char (next_first_one one) rest
  split
  · next notOne two =>
    refine (decodeLossyFrom_more (next_first_two ?_ ?_) _).trans ?_
    · omega
    · omega
    refine decodeLossyFrom_char (next_char ?_ ?_ ?_) rest
    · omega
    · omega
    · omega
  split
  · next byte => omega
  split
  · next notOne notTwo notByte three =>
    refine (decodeLossyFrom_more (next_first_three ?_) _).trans ?_
    · omega
    refine (decodeLossyFrom_more (next_more ?_ ?_) _).trans ?_
    · omega
    · split <;> split <;> omega
    refine decodeLossyFrom_char (next_char ?_ ?_ ?_) rest
    · omega
    · omega
    · omega
  · next notOne notTwo notByte notThree =>
    refine (decodeLossyFrom_more (next_first_four ?_) _).trans ?_
    · omega
    refine (decodeLossyFrom_more (next_more ?_ ?_) _).trans ?_
    · omega
    · split <;> split <;> omega
    refine (decodeLossyFrom_more (next_more ?_ ?_) _).trans ?_
    · omega
    · omega
    refine decodeLossyFrom_char (next_char ?_ ?_ ?_) rest
    · omega
    · omega
    · omega

/-- **A text without surrogates survives its bytes.** -/
theorem decodeLossy_encode {t : Text} (scalar : ∀ c ∈ t, c.isSurrogate = false) :
    decodeLossy (encode t) = t := by
  unfold decodeLossy encode
  induction t with
  | nil => rfl
  | cons c rest ih =>
    rw [List.flatMap_cons, decodeLossyFrom_encodeChar (scalar c List.mem_cons_self),
      ih fun c' hc' => scalar c' (List.mem_cons_of_mem _ hc')]

end Utf8
end ProtoAtlas
