/-
# Integer literals mean what they spell

An integer can be written in three ways, each with or without a sign:

| literal | digits |
| --- | --- |
| `0x` or `0X` and digits | at least one in base 16 |
| `0` and digits | any number in base 8 |
| a digit other than `0` and digits | at most 4300 in all, in base 10 |

A number token in ASCII characters has a value exactly if it is written so, and the value is
the integer its digits spell; written alone, such a text is one number token
(`integer_literals_mean_what_they_spell`).

`Radix.read?` is more generous: it lets white space, underscores, a second sign and a second
marker pass.  None of them gets that far.  Behind its sign and its marker a number token is
made of hexadecimal digits, points and signs, and the first of them is no sign (`Numeric`).
Of such a text only digits are read (`read?_eq_some_iff`).
-/

import ProtoAtlas.Proofs.Literal.Spelling

namespace ProtoAtlas

namespace CodePoint

/-- The ASCII characters. -/
def ofAscii (v : Fin 128) : CodePoint := ⟨v, by omega⟩

theorem exists_ofAscii {c : CodePoint} (ascii : c.val < 128) : ∃ v, ofAscii v = c :=
  ⟨⟨c.val, ascii⟩, rfl⟩

/-- The digits of a base are the hexadecimal digits below it. -/
theorem digitIn?_iff_digitIn?_sixteen {base d : Nat} (hb : base ≤ 16) {c : CodePoint} :
    c.digitIn? base = some d ↔ d < base ∧ c.digitIn? 16 = some d := by
  unfold digitIn?
  cases c.decimal? with
  | some e =>
    simp only [Option.ite_none_right_eq_some, Option.some.injEq]
    constructor
    · rintro ⟨small, rfl⟩
      exact ⟨small, by omega, rfl⟩
    · rintro ⟨small, -, rfl⟩
      exact ⟨small, rfl⟩
  | none =>
    simp only [Option.ite_none_right_eq_some, Option.some.injEq, Bool.and_eq_true,
      decide_eq_true_eq]
    constructor
    · rintro ⟨⟨hex, small⟩, rfl⟩
      exact ⟨small, ⟨hex, by omega⟩, rfl⟩
    · rintro ⟨small, ⟨hex, -⟩, rfl⟩
      exact ⟨⟨hex, small⟩, rfl⟩

end CodePoint

namespace Literal

/-! ### Spellings of integers -/

/-- How a natural number can be written: in base 16 behind a marker, in base 8 behind a zero,
and in base 10 from a digit other than zero on, with at most 4300 digits. -/
inductive NatSpelling : Nat → Text → Prop where
  | hexadecimal {mark : CodePoint} {width n : Nat} {digits : Text} :
      mark = CodePoint.ofChar 'x' ∨ mark = CodePoint.ofChar 'X' → 0 < width →
      Spells 16 width n digits → NatSpelling n (CodePoint.ofChar '0' :: mark :: digits)
  | octal {width n : Nat} {digits : Text} : Spells 8 width n digits →
      NatSpelling n (CodePoint.ofChar '0' :: digits)
  | decimal {first : CodePoint} {width n : Nat} {digits : Text} :
      first ≠ CodePoint.ofChar '0' → width ≤ 4300 → Spells 10 width n (first :: digits) →
      NatSpelling n (first :: digits)

/-- How an integer can be written: a natural number, with or without a sign. -/
inductive IntSpelling : Int → Text → Prop where
  | unsigned {n : Nat} {t : Text} : NatSpelling n t → IntSpelling n t
  | plus {n : Nat} {t : Text} : NatSpelling n t → IntSpelling n (CodePoint.ofChar '+' :: t)
  | minus {n : Nat} {t : Text} : NatSpelling n t → IntSpelling (-n) (CodePoint.ofChar '-' :: t)

/-! ### Runs of digits -/

/-- An ASCII character has a value in a base exactly if it is a digit of the base. -/
theorem digitIn?_eq_some_iff {base d : Nat} (hb : base ≤ 16) {c : CodePoint}
    (ascii : c.val < 128) : c.digitIn? base = some d ↔ IsDigit base d c := by
  have all : ∀ v : Fin 128, ∀ d < 16, (CodePoint.ofAscii v).digitIn? 16 = some d ↔
      IsDigit 16 d (CodePoint.ofAscii v) := by decide +kernel
  obtain ⟨v, rfl⟩ := CodePoint.exists_ofAscii ascii
  rw [CodePoint.digitIn?_iff_digitIn?_sixteen hb, IsDigit]
  refine and_congr_right fun small => ?_
  rw [all v d (by omega), IsDigit]
  exact and_iff_right (by omega)

/-- A run without underscores has one digit for each character. -/
theorem digitRun?_eq_some_iff {base : Nat} (hb : base ≤ 16) {t : Text}
    (ascii : ∀ c ∈ t, c.val < 128) (whole : CodePoint.ofChar '_' ∉ t) {ds : List Nat} :
    Radix.digitRun? base t = some ds ↔ t ≠ [] ∧ List.Forall₂ (IsDigit base) ds t := by
  fun_induction Radix.digitRun? base t generalizing ds with
  | case1 => simp
  | case2 c =>
    simp only [Option.map_eq_some_iff, digitIn?_eq_some_iff hb (ascii c List.mem_cons_self),
      List.forall₂_cons_right_iff, List.forall₂_nil_right_iff]
    constructor
    · rintro ⟨d, digit, rfl⟩
      exact ⟨by simp, d, [], digit, rfl, rfl⟩
    · rintro ⟨-, d, _, digit, rfl, rfl⟩
      exact ⟨d, digit, rfl⟩
  | case3 c u cs noDigit =>
    refine iff_of_false (by simp) fun h => ?_
    obtain ⟨d, rest, digit, -, -⟩ := List.forall₂_cons_right_iff.1 h.2
    rw [← digitIn?_eq_some_iff hb (ascii c List.mem_cons_self), noDigit] at digit
    cases digit
  | case4 c cs d digit ih => exact absurd (by simp) whole
  | case5 c u cs d digit _ ih =>
    have here := fun e => digitIn?_eq_some_iff hb (ascii c List.mem_cons_self) (d := e)
    simp only [Option.map_eq_some_iff, ih (fun b hb => ascii b (List.mem_cons_of_mem c hb))
      (fun h => whole (List.mem_cons_of_mem c h))]
    constructor
    · rintro ⟨es, ⟨-, rest⟩, rfl⟩
      exact ⟨by simp, .cons ((here d).1 digit) rest⟩
    · rintro ⟨-, h⟩
      obtain ⟨e, es, same, rest, rfl⟩ := List.forall₂_cons_right_iff.1 h
      rw [← here, digit] at same
      cases same
      exact ⟨es, ⟨by simp, rest⟩, rfl⟩

/-- The digits of a run spell the number they are read as. -/
theorem spells_iff_digitRun? {base width n : Nat} (hb : base ≤ 16) {t : Text}
    (ascii : ∀ c ∈ t, c.val < 128) (whole : CodePoint.ofChar '_' ∉ t) :
    (Spells base width n t ∧ 0 < width) ↔
      ∃ ds, Radix.digitRun? base t = some ds ∧ ds.length = width ∧ Radix.ofDigits base ds = n := by
  have value : ∀ ds : List Nat, Radix.ofDigits base ds = Nat.ofDigits base ds.reverse := by
    intro ds
    simp only [Radix.ofDigits, Nat.ofDigits_eq_foldr, List.foldr_reverse, Nat.cast_id,
      Nat.add_comm, Nat.mul_comm]
  simp only [digitRun?_eq_some_iff hb ascii whole, value]
  constructor
  · rintro ⟨⟨ds, digits, rfl, rfl⟩, pos⟩
    refine ⟨ds, ⟨?_, digits⟩, rfl, rfl⟩
    rintro rfl
    rw [List.forall₂_nil_right_iff.1 digits] at pos
    exact Nat.lt_irrefl 0 pos
  · rintro ⟨ds, ⟨ne, digits⟩, rfl, rfl⟩
    refine ⟨⟨ds, digits, rfl, rfl⟩, ?_⟩
    rw [digits.length_eq]
    exact List.length_pos_iff.2 ne

/-! ### Numeric texts -/

/-- Hexadecimal digits, points and signs. -/
def isNumeric (c : CodePoint) : Bool :=
  c.isHexDigit || c = CodePoint.ofChar '.' || Segment.isSign c

/-- Numeric characters, the first of which is no sign. -/
structure Numeric (t : Text) : Prop where
  part : ∀ c ∈ t, isNumeric c = true
  unsigned : ∀ c ∈ t.head?, Segment.isSign c = false

/-- What reading a number needs to know about a numeric character. -/
theorem numeric_facts {c : CodePoint} (h : isNumeric c = true) :
    c.val < 128 ∧ c.isNumberPadding = false ∧ c ≠ CodePoint.ofChar '_' ∧
      c.toLower ≠ CodePoint.ofChar 'o' ∧ c.toLower ≠ CodePoint.ofChar 'x' := by
  have all : ∀ v : Fin 128, isNumeric (CodePoint.ofAscii v) = true →
      (CodePoint.ofAscii v).isNumberPadding = false ∧
      CodePoint.ofAscii v ≠ CodePoint.ofChar '_' ∧
      (CodePoint.ofAscii v).toLower ≠ CodePoint.ofChar 'o' ∧
      (CodePoint.ofAscii v).toLower ≠ CodePoint.ofChar 'x' := by decide +kernel
  have ascii : c.val < 128 := by
    simp only [isNumeric, Segment.isSign, CodePoint.isHexDigit, CodePoint.isAsciiDigit,
      CodePoint.between, Bool.or_eq_true, Bool.and_eq_true, decide_eq_true_eq] at h
    rcases h with (((h | h) | h) | rfl) | rfl | rfl
    · exact Nat.lt_of_le_of_lt h.2 (by decide)
    · exact Nat.lt_of_le_of_lt h.2 (by decide)
    · exact Nat.lt_of_le_of_lt h.2 (by decide)
    all_goals decide
  obtain ⟨v, rfl⟩ := CodePoint.exists_ofAscii ascii
  exact ⟨ascii, all v h⟩

theorem numeric_of_isHexDigit {t : Text} (h : ∀ c ∈ t, c.isHexDigit = true) : Numeric t := by
  have all : ∀ v : Fin 128, (CodePoint.ofAscii v).isHexDigit = true →
      Segment.isSign (CodePoint.ofAscii v) = false := by decide +kernel
  have part : ∀ c ∈ t, isNumeric c = true := fun c hc => by rw [isNumeric, h c hc]; rfl
  refine ⟨part, fun c hc => ?_⟩
  have mem : c ∈ t := List.mem_of_mem_head? hc
  obtain ⟨v, rfl⟩ := CodePoint.exists_ofAscii (numeric_facts (part c mem)).1
  exact all v (h _ mem)

theorem splitSign_numeric {t : Text} (h : Numeric t) : Radix.splitSign t = (false, t) := by
  cases t with
  | nil => rfl
  | cons c cs => exact Radix.splitSign_of_isSign (h.unsigned c rfl) cs

theorem dropMarker_numeric {r : Radix} {t : Text} (h : Numeric t) : r.dropMarker t = t := by
  unfold Radix.dropMarker
  split
  · next letter zero mark rest marked =>
    obtain ⟨-, -, -, o, x⟩ := numeric_facts (h.part mark (by simp))
    rw [if_neg]
    rintro ⟨-, same⟩
    cases r with
    | octal => cases marked; exact o same
    | decimal => cases marked
    | hexadecimal => cases marked; exact x same
  · rfl

/-- **Of a numeric text only digits are read.**  There is nothing in it that the rules for
white space, underscores, signs and markers apply to. -/
theorem read?_eq_some_iff {r : Radix} {t : Text} (h : Numeric t) {n : Int} :
    r.read? t = some n ↔ ∃ width m : Nat, (Spells r.base width m t ∧ 0 < width) ∧
      (r = .decimal → width ≤ 4300) ∧ n = m := by
  have hb : r.base ≤ 16 := by cases r <;> decide
  have ascii : ∀ c ∈ t, c.val < 128 := fun c hc => (numeric_facts (h.part c hc)).1
  have whole : CodePoint.ofChar '_' ∉ t := fun hc => (numeric_facts (h.part _ hc)).2.2.1 rfl
  have unpadded : t.strip CodePoint.isNumberPadding = t :=
    Text.strip_eq_self fun c hc => (numeric_facts (h.part c hc)).2.1
  simp only [Radix.read?, unpadded, splitSign_numeric h, dropMarker_numeric h,
    spells_iff_digitRun? hb ascii whole]
  cases Radix.digitRun? r.base t with
  | none => simp
  | some ds =>
    simp only [Option.ite_none_left_eq_some, Option.some.injEq]
    constructor
    · rintro ⟨few, rfl⟩
      refine ⟨ds.length, _, ⟨ds, rfl, rfl, rfl⟩, fun decimal => ?_, rfl⟩
      exact Nat.not_lt.1 fun many => few ⟨decimal, many⟩
    · rintro ⟨_, _, ⟨_, rfl, rfl, rfl⟩, few, rfl⟩
      exact ⟨fun many => Nat.not_lt.2 (few many.1) many.2, rfl⟩

/-! ### Magnitudes -/

/-- What a number in ASCII characters looks like without its sign.  A sign in an exponent
stands behind a letter, so it is at least the third character. -/
inductive NumberBody : Text → Prop where
  | hexadecimal {mark : CodePoint} {digits : Text} :
      mark = CodePoint.ofChar 'x' ∨ mark = CodePoint.ofChar 'X' →
      (∀ c ∈ digits, c.isHexDigit = true) →
      NumberBody (CodePoint.ofChar '0' :: mark :: digits)
  | decimal {first : CodePoint} {rest : Text} : Numeric (first :: rest) → Numeric rest →
      NumberBody (first :: rest)

theorem NumberBody.splitSign {body : Text} (h : NumberBody body) :
    Radix.splitSign body = (false, body) := by
  cases h with
  | hexadecimal => exact Radix.splitSign_of_isSign (by decide) _
  | decimal whole => exact splitSign_numeric whole

/-- The letter of the marker is no digit. -/
theorem not_spells_marker {base width n : Nat} (hb : base ≤ 16) {mark : CodePoint} {t : Text}
    (letter : mark = CodePoint.ofChar 'x' ∨ mark = CodePoint.ofChar 'X') :
    ¬Spells base width n (mark :: t) := by
  intro spelled
  have hex := spelled.forall_mem (fun d c digit => (digit.mono hb).hexadecimal.1) mark
    List.mem_cons_self
  rcases letter with rfl | rfl <;> exact absurd hex (by decide)

theorem natSpelling_marked {n : Nat} {mark : CodePoint} {digits : Text}
    (letter : mark = CodePoint.ofChar 'x' ∨ mark = CodePoint.ofChar 'X') :
    NatSpelling n (CodePoint.ofChar '0' :: mark :: digits) ↔
      ∃ width, Spells 16 width n digits ∧ 0 < width := by
  constructor
  · intro spelling
    cases spelling with
    | hexadecimal _ pos spelled => exact ⟨_, spelled, pos⟩
    | octal spelled => exact absurd spelled (not_spells_marker (by decide) letter)
    | decimal nonzero => exact absurd rfl nonzero
  · rintro ⟨width, spelled, pos⟩
    exact .hexadecimal letter pos spelled

theorem natSpelling_zero {n : Nat} {rest : Text}
    (plain : ∀ mark ∈ rest.head?, ¬(mark = CodePoint.ofChar 'x' ∨ mark = CodePoint.ofChar 'X')) :
    NatSpelling n (CodePoint.ofChar '0' :: rest) ↔ Spells 8 rest.length n rest := by
  constructor
  · intro spelling
    cases spelling with
    | hexadecimal letter => exact absurd letter (plain _ rfl)
    | octal spelled => exact spelled.length_eq ▸ spelled
    | decimal nonzero => exact absurd rfl nonzero
  · exact .octal

theorem natSpelling_nonzero {n : Nat} {first : CodePoint} {rest : Text}
    (nonzero : first ≠ CodePoint.ofChar '0') :
    NatSpelling n (first :: rest) ↔ ∃ width, Spells 10 width n (first :: rest) ∧ width ≤ 4300 := by
  constructor
  · intro spelling
    cases spelling with
    | hexadecimal => exact absurd rfl nonzero
    | octal => exact absurd rfl nonzero
    | decimal _ few spelled => exact ⟨_, spelled, few⟩
  · rintro ⟨width, spelled, few⟩
    exact .decimal nonzero few spelled

section Magnitude

variable {first mark : CodePoint} {digits rest : Text} {n : Int}

theorem magnitude?_marked (letter : mark = CodePoint.ofChar 'x' ∨ mark = CodePoint.ofChar 'X')
    (hex : ∀ c ∈ digits, c.isHexDigit = true) :
    magnitude? (CodePoint.ofChar '0' :: mark :: digits) = some n ↔
      ∃ m : Nat, NatSpelling m (CodePoint.ofChar '0' :: mark :: digits) ∧ n = m := by
  rw [magnitude?, if_pos rfl, if_pos letter, read?_eq_some_iff (numeric_of_isHexDigit hex)]
  simp only [natSpelling_marked letter]
  constructor
  · rintro ⟨width, m, spelled, -, rfl⟩
    exact ⟨m, ⟨width, spelled⟩, rfl⟩
  · rintro ⟨m, ⟨width, spelled⟩, rfl⟩
    exact ⟨width, m, spelled, by simp, rfl⟩

theorem magnitude?_zero (numeric : Numeric rest) :
    magnitude? (CodePoint.ofChar '0' :: rest) = some n ↔
      ∃ m : Nat, NatSpelling m (CodePoint.ofChar '0' :: rest) ∧ n = m := by
  have plain : ∀ mark ∈ rest.head?,
      ¬(mark = CodePoint.ofChar 'x' ∨ mark = CodePoint.ofChar 'X') := by
    intro mark hmark letter
    have x := (numeric_facts (numeric.part mark (List.mem_of_mem_head? hmark))).2.2.2.2
    rcases letter with rfl | rfl <;> exact x (by decide)
  simp only [natSpelling_zero plain]
  cases rest with
  | nil =>
    -- A zero alone is read in base ten, and spells the same in base eight.
    have read : magnitude? [CodePoint.ofChar '0'] = some 0 := by decide
    rw [read]
    constructor
    · rintro ⟨⟩
      exact ⟨0, ⟨[], .nil, rfl, rfl⟩, rfl⟩
    · rintro ⟨m, ⟨ds, digits, -, rfl⟩, rfl⟩
      cases digits
      rfl
  | cons mark digits =>
    rw [magnitude?, if_pos rfl, if_neg (plain mark rfl), read?_eq_some_iff numeric]
    constructor
    · rintro ⟨width, m, ⟨spelled, -⟩, -, rfl⟩
      exact ⟨m, spelled.length_eq ▸ spelled, rfl⟩
    · rintro ⟨m, spelled, rfl⟩
      exact ⟨_, m, ⟨spelled, by simp⟩, by simp, rfl⟩

theorem magnitude?_nonzero (nonzero : first ≠ CodePoint.ofChar '0')
    (numeric : Numeric (first :: rest)) :
    magnitude? (first :: rest) = some n ↔
      ∃ m : Nat, NatSpelling m (first :: rest) ∧ n = m := by
  have decimal : magnitude? (first :: rest) = Radix.decimal.read? (first :: rest) := by
    cases rest with
    | nil => rfl
    | cons mark rest => rw [magnitude?, if_neg nonzero]
  simp only [decimal, read?_eq_some_iff numeric, natSpelling_nonzero nonzero]
  constructor
  · rintro ⟨width, m, ⟨spelled, -⟩, few, rfl⟩
    exact ⟨m, ⟨width, spelled, few trivial⟩, rfl⟩
  · rintro ⟨m, ⟨width, spelled, few⟩, rfl⟩
    have pos : 0 < width := by
      rw [← spelled.length_eq]
      simp
    exact ⟨width, m, ⟨spelled, pos⟩, fun _ => few, rfl⟩

end Magnitude

/-- **The magnitude of a number is what it spells.** -/
theorem magnitude?_eq_some_iff {body : Text} (h : NumberBody body) {n : Int} :
    magnitude? body = some n ↔ ∃ m : Nat, NatSpelling m body ∧ n = m := by
  cases h with
  | hexadecimal letter hex => exact magnitude?_marked letter hex
  | @decimal first rest whole tail =>
    by_cases zero : first = CodePoint.ofChar '0'
    · subst zero
      exact magnitude?_zero tail
    · exact magnitude?_nonzero zero whole

/-! ### Written numbers -/

theorem IsDigit.decimal {d : Nat} {c : CodePoint} (h : IsDigit 10 d c) :
    c = CodePoint.ofDigit d := by
  have all : ∀ d < 10, (Nat.digitChar d).toUpper = Nat.digitChar d := by decide
  rcases h.2 with same | same
  · exact same
  · rw [same, all d h.1]
    rfl

/-- Up to base ten a digit has one character. -/
theorem Spells.exists_digits {base width n : Nat} {t : Text} (h : Spells base width n t)
    (hb : base ≤ 10) : ∃ ds : List Nat, t = ds.map CodePoint.ofDigit ∧ ∀ d ∈ ds, d < 10 := by
  obtain ⟨ds, digits, -⟩ := h
  induction digits with
  | nil => exact ⟨[], rfl, by simp⟩
  | @cons d c _ _ digit _ ih =>
    obtain ⟨es, rfl, small⟩ := ih
    have first := digit.mono hb
    refine ⟨d :: es, by rw [List.map_cons, first.decimal], ?_⟩
    exact List.forall_mem_cons.2 ⟨first.1, small⟩

namespace NatSpelling

variable {n : Nat} {t : Text}

/-- A natural number is written in hexadecimal digits behind a marker or in decimal digits. -/
theorem shape (h : NatSpelling n t) :
    (∃ mark digits, t = CodePoint.ofChar '0' :: mark :: digits ∧
      (mark = CodePoint.ofChar 'x' ∨ mark = CodePoint.ofChar 'X') ∧
      ∀ c ∈ digits, c.isHexDigit = true) ∨
    ∃ (d : Nat) (ds : List Nat), t = (d :: ds).map CodePoint.ofDigit ∧ ∀ e ∈ d :: ds, e < 10 := by
  cases h with
  | hexadecimal letter pos spelled => exact Or.inl ⟨_, _, rfl, letter, spelled.isHexDigit⟩
  | octal spelled =>
    obtain ⟨ds, rfl, small⟩ := spelled.exists_digits (by decide)
    exact Or.inr ⟨0, ds, rfl, List.forall_mem_cons.2 ⟨by decide, small⟩⟩
  | decimal nonzero few spelled =>
    obtain ⟨ds, text, small⟩ := spelled.exists_digits (Nat.le_refl 10)
    cases ds with
    | nil => cases text
    | cons d ds => exact Or.inr ⟨d, ds, text, small⟩

/-- A number starts with a digit. -/
theorem exists_digit (h : NatSpelling n t) :
    ∃ c cs, t = c :: cs ∧ c.isDigit = true ∧ Segment.isSign c = false := by
  rcases h.shape with ⟨mark, digits, rfl, -⟩ | ⟨d, ds, rfl, small⟩
  · exact ⟨_, _, rfl, by decide, by decide⟩
  · have first : d < 10 := small d List.mem_cons_self
    exact ⟨_, _, rfl, (Radix.decimal_facts first).2.1,
      (Radix.digit_facts (show d < 16 by omega)).2.1⟩

theorem startsUnsigned (h : NatSpelling n t) : Segment.startsUnsigned t = true := by
  obtain ⟨c, cs, rfl, digit, -⟩ := h.exists_digit
  rw [Segment.startsUnsigned, digit]
  rfl

/-- A number is counted to its end. -/
theorem numberLength_eq (h : NatSpelling n t) : Segment.numberLength t = t.length := by
  rcases h.shape with ⟨mark, digits, rfl, letter, hex⟩ | ⟨d, ds, rfl, small⟩
  · rw [Segment.numberLength, if_pos ⟨rfl, letter⟩, Segment.runLength,
      List.takeWhile_eq_self_iff.2 hex, List.length_cons, List.length_cons, Nat.add_comm]
  · have others : ∀ e ∈ ds, e < 10 := fun e he => small e (List.mem_cons_of_mem d he)
    have unmarked : ∀ mark ∈ (ds.map CodePoint.ofDigit ++ []).head?,
        mark.toLower ≠ CodePoint.ofChar 'x' := Lexeme.head?_digits others (by simp)
    have counted : Segment.decimalLength ((d :: ds).map CodePoint.ofDigit ++ []) =
        (d :: ds).length + Segment.exponentLength [] :=
      Segment.decimalLength_digits small (Or.inl rfl)
    rw [List.append_nil] at unmarked counted
    rw [List.map_cons, Segment.numberLength_eq_decimalLength unmarked, ← List.map_cons, counted,
      List.length_map]
    rfl

end NatSpelling

/-! ### Signs -/

/-- A spelling without its sign. -/
theorem intSpelling_iff {n : Int} {t : Text} : IntSpelling n t ↔
    ∃ m, NatSpelling m (Radix.splitSign t).2 ∧ n = Radix.signed (Radix.splitSign t).1 m := by
  constructor
  · intro spelling
    cases spelling with
    | @unsigned n t spelled =>
      obtain ⟨c, cs, rfl, -, unsigned⟩ := spelled.exists_digit
      rw [Radix.splitSign_of_isSign unsigned]
      exact ⟨n, spelled, rfl⟩
    | @plus n t spelled => exact ⟨n, spelled, rfl⟩
    | @minus n t spelled => exact ⟨n, spelled, rfl⟩
  · rintro ⟨m, spelled, rfl⟩
    cases t with
    | nil => exact .unsigned spelled
    | cons c cs =>
      rw [Radix.splitSign] at spelled ⊢
      split_ifs at spelled ⊢ with minus plus
      · exact minus ▸ .minus spelled
      · exact plus ▸ .plus spelled
      · exact .unsigned spelled

theorem integer_eq_some_iff {t : Text} (h : NumberBody (Radix.splitSign t).2) {n : Int} :
    integer t = .ok (some n) ↔ IntSpelling n t := by
  have notEmpty : t.isEmpty = false := by
    cases t with
    | nil => cases h
    | cons => rfl
  simp only [integer, notEmpty, intSpelling_iff, Except.ok.injEq, Option.map_eq_some_iff,
    magnitude?_eq_some_iff h, Bool.false_eq_true, if_false]
  constructor
  · rintro ⟨_, ⟨m, spelled, rfl⟩, rfl⟩
    exact ⟨m, spelled, rfl⟩
  · rintro ⟨m, spelled, rfl⟩
    exact ⟨m, ⟨m, spelled, rfl⟩, rfl⟩

theorem splitSign_signed {c : CodePoint} (sign : Segment.isSign c = true) (t : Text) :
    (Radix.splitSign (c :: t)).2 = t := by
  rw [Segment.isSign, Bool.or_eq_true, decide_eq_true_eq, decide_eq_true_eq] at sign
  rcases sign with rfl | rfl <;> rfl

end Literal

/-! ### Number tokens -/

namespace Segment

open Literal

/-- An exponent is made of its letter, signs and digits, and the letter is in front. -/
theorem take_exponentLength (t : Text) :
    (∀ c ∈ t.take (exponentLength t),
      (c.isDigit = true ∨ isRealMark c = true) ∨ isSign c = true) ∧
    ∀ c ∈ (t.take (exponentLength t)).head?, isRealMark c = true := by
  have digits : ∀ u : Text, ∀ c ∈ u.take (runLength CodePoint.isDigit u), c.isDigit = true := by
    intro u c hc
    rw [take_runLength] at hc
    exact List.mem_takeWhile_imp hc
  cases t with
  | nil => simp
  | cons c cs =>
    by_cases marker : c = CodePoint.ofChar 'e' ∨ c = CodePoint.ofChar 'E'
    · have letter : isRealMark c = true := by rcases marker with rfl | rfl <;> decide
      have taken : ∃ rest, (c :: cs).take (exponentLength (c :: cs)) = c :: rest ∧
          ∀ d ∈ rest, d.isDigit = true ∨ isSign d = true := by
        rw [exponentLength.eq_def]
        dsimp only
        rw [if_pos marker]
        cases cs with
        | nil => exact ⟨[], rfl, by simp⟩
        | cons d ds =>
          dsimp only
          split
          · next sign =>
            refine ⟨d :: ds.take (runLength CodePoint.isDigit ds), by rw [Nat.add_comm]; rfl, ?_⟩
            exact List.forall_mem_cons.2 ⟨Or.inr sign, fun e he => Or.inl (digits ds e he)⟩
          · exact ⟨(d :: ds).take (runLength CodePoint.isDigit (d :: ds)),
              by rw [Nat.add_comm]; rfl, fun e he => Or.inl (digits _ e he)⟩
      obtain ⟨rest, taken, tail⟩ := taken
      rw [taken]
      constructor
      · refine List.forall_mem_cons.2 ⟨Or.inl (Or.inr letter), fun d hd => ?_⟩
        exact (tail d hd).imp_left Or.inl
      · rintro _ ⟨⟩
        exact letter
    · have none : exponentLength (c :: cs) = 0 := by
        rw [exponentLength.eq_def]
        exact if_neg marker
      simp [none]

/-- Digits and points with an exponent behind them are numeric, if they are in ASCII
characters. -/
theorem numeric_append {run exponent : Text}
    (digits : ∀ c ∈ run, c.isDigit = true ∨ isRealMark c = true)
    (tail : ∀ c ∈ exponent, (c.isDigit = true ∨ isRealMark c = true) ∨ isSign c = true)
    (letter : ∀ c ∈ exponent.head?, isRealMark c = true)
    (ascii : ∀ c ∈ run ++ exponent, c.val < 128) : Numeric (run ++ exponent) := by
  have all : ∀ v : Fin 128, (CodePoint.ofAscii v).isDigit = true ∨
      isRealMark (CodePoint.ofAscii v) = true → isNumeric (CodePoint.ofAscii v) = true ∧
        isSign (CodePoint.ofAscii v) = false := by decide +kernel
  have facts : ∀ c ∈ run ++ exponent, c.isDigit = true ∨ isRealMark c = true →
      isNumeric c = true ∧ isSign c = false := by
    intro c hc
    obtain ⟨v, rfl⟩ := CodePoint.exists_ofAscii (ascii c hc)
    exact all v
  constructor
  · intro c hc
    have part : (c.isDigit = true ∨ isRealMark c = true) ∨ isSign c = true :=
      (List.mem_append.1 hc).elim (fun inRun => Or.inl (digits c inRun)) (tail c)
    rcases part with part | sign
    · exact (facts c hc part).1
    · rw [isNumeric, sign, Bool.or_true]
  · intro c hc
    refine (facts c (List.mem_of_mem_head? hc) ?_).2
    cases run with
    | nil => exact Or.inr (letter c hc)
    | cons d ds =>
      cases hc
      exact digits c List.mem_cons_self

theorem numberBody_take {c : CodePoint} {cs : Text} (start : startsUnsigned (c :: cs) = true)
    (ascii : ∀ d ∈ (c :: cs).take (numberLength (c :: cs)), d.val < 128) :
    NumberBody ((c :: cs).take (numberLength (c :: cs))) := by
  by_cases marked : ∃ mark rest, cs = mark :: rest ∧ c = CodePoint.ofChar '0' ∧
      (mark = CodePoint.ofChar 'x' ∨ mark = CodePoint.ofChar 'X')
  · obtain ⟨mark, rest, rfl, rfl, letter⟩ := marked
    rw [numberLength, if_pos ⟨rfl, letter⟩, Nat.add_comm 2, List.take_succ_cons,
      List.take_succ_cons, take_runLength]
    exact .hexadecimal letter fun d hd => List.mem_takeWhile_imp hd
  · have plain : ∀ mark ∈ cs.head?, ¬(c = CodePoint.ofChar '0' ∧
        (mark = CodePoint.ofChar 'x' ∨ mark = CodePoint.ofChar 'X')) := by
      intro mark hmark zero
      obtain ⟨rest, rfl⟩ := List.head?_eq_some_iff.1 hmark
      exact marked ⟨mark, rest, rfl, zero⟩
    rw [numberLength_decimal plain] at ascii ⊢
    generalize hp : (fun c : CodePoint => c.isDigit || decide (c = CodePoint.ofChar '.')) = p
    have first : p c = true := by
      rw [← hp, Bool.or_eq_true, decide_eq_true_eq]
      exact startsUnsigned_cons start
    have taken : (c :: cs).take (decimalLength (c :: cs)) = c :: cs.takeWhile p ++
        (cs.dropWhile p).take (exponentLength (cs.dropWhile p)) := by
      simp only [decimalLength, hp]
      rw [List.take_add, take_runLength, drop_runLength, List.takeWhile_cons_of_pos first,
        List.dropWhile_cons_of_pos first]
    have mark : ∀ d, p d = true → d.isDigit = true ∨ isRealMark d = true := by
      intro d hd
      rw [← hp, Bool.or_eq_true, decide_eq_true_eq] at hd
      refine hd.imp_right ?_
      rintro rfl
      decide
    have run : ∀ d ∈ cs.takeWhile p, d.isDigit = true ∨ isRealMark d = true :=
      fun d hd => mark d (List.mem_takeWhile_imp hd)
    obtain ⟨tail, letter⟩ := take_exponentLength (cs.dropWhile p)
    rw [taken] at ascii ⊢
    -- The first character is part of the run, so what follows it is a run and an exponent too.
    exact .decimal
      (numeric_append (List.forall_mem_cons.2 ⟨mark c first, run⟩) tail letter ascii)
      (numeric_append run tail letter fun d hd => ascii d (List.mem_cons_of_mem c hd))

theorem segments_whole {c : CodePoint} {cs : Text} {kind : TokenKind}
    (cut : classify c cs = (.token kind, cs.length)) :
    segments (c :: cs) = [⟨.token kind, c :: cs⟩] := by
  rw [segments, cut]
  simp only [List.take_length, List.drop_length]
  rw [segments]

end Segment

/-- What a number token in ASCII characters looks like without its sign. -/
theorem Lexeme.Lexed.numberBody {l : Lexeme} (h : l.Lexed) (number : l.kind = .number)
    (ascii : ∀ c ∈ l.text, c.val < 128) : Literal.NumberBody (Radix.splitSign l.text).2 := by
  obtain ⟨c, cs, more, cut, text⟩ := h
  rw [number] at cut
  rw [text] at ascii ⊢
  cases Segment.tokenStart_of_classify cut with
  | unsigned start =>
    obtain ⟨n, hn⟩ := Nat.exists_eq_add_one_of_ne_zero (Segment.numberLength_pos start).ne'
    have body := Segment.numberBody_take start
    rw [hn, List.take_succ_cons] at body
    rw [hn, Nat.add_sub_cancel] at ascii ⊢
    rw [(body ascii).splitSign]
    exact body ascii
  | signed sign start =>
    cases cs with
    | nil => cases start
    | cons d ds =>
      rw [Literal.splitSign_signed sign]
      exact Segment.numberBody_take start fun e he => ascii e (List.mem_cons_of_mem c he)
  | punctuation mark _ listed same => exact absurd rfl (Segment.kind_of_mem_marks listed).2.1

namespace Literal

theorem NatSpelling.segments_signed {n : Nat} {t : Text} (h : NatSpelling n t) {c : CodePoint}
    (sign : Segment.isSign c = true) :
    Segment.segments (c :: t) = [⟨.token .number, c :: t⟩] := by
  refine Segment.segments_whole ?_
  rw [Segment.classify_signed sign h.startsUnsigned, h.numberLength_eq]

/-- A written integer is one segment. -/
theorem IntSpelling.segments {n : Int} {t : Text} (h : IntSpelling n t) :
    Segment.segments t = [⟨.token .number, t⟩] := by
  cases h with
  | unsigned spelled =>
    have start := spelled.startsUnsigned
    have length := spelled.numberLength_eq
    cases t with
    | nil => cases start
    | cons c cs =>
      refine Segment.segments_whole ?_
      rw [Segment.classify_unsigned start, length, List.length_cons, Nat.add_sub_cancel]
  | plus spelled => exact spelled.segments_signed (by decide)
  | minus spelled => exact spelled.segments_signed (by decide)

/-- **Integer literals mean what they spell.**  A number token of a text, if it is made of ASCII
characters, is read as an integer exactly if it is a spelling of that integer, and it has no
value exactly if it spells none.  Every spelling of an integer is, as a text of its own, one
number token. -/
theorem integer_literals_mean_what_they_spell :
    (∀ (t : Text) (token : Token), token ∈ (TokenStream.ofText t).all → token.kind = .number →
      (∀ c ∈ token.text, c.val < 128) →
      (∀ n, integer token.text = .ok (some n) ↔ IntSpelling n token.text) ∧
      (integer token.text = .ok none ↔ ¬∃ n, IntSpelling n token.text)) ∧
    ∀ (n : Int) (t : Text), IntSpelling n t →
      let finish := Position.zero.after t
      (TokenStream.ofText t).all =
        [⟨.number, t, ⟨Position.zero, finish⟩, none, none⟩,
          ⟨.endOfFile, [], ⟨finish, finish⟩, none, none⟩] := by
  constructor
  · intro t token mem number ascii
    have inTokens : token ∈ (TokenStream.ofText t).tokens := by
      refine (List.mem_append.1 mem).resolve_right fun finish => ?_
      rw [List.mem_singleton.1 finish] at number
      cases number
    have lexed : token.lexeme.Lexed := Token.lexed_of_mem_tokens inTokens
    have spelled : ∀ n, integer token.text = .ok (some n) ↔ IntSpelling n token.text :=
      fun n => integer_eq_some_iff (lexed.numberBody number ascii)
    obtain ⟨answer, answered⟩ := integer_answered (lexed.number number)
    rw [Token.lexeme_text] at answered
    refine ⟨spelled, ?_⟩
    -- A token is not empty, so there is an answer, and it is one or the other.
    simp only [← spelled]
    rw [answered]
    cases answer <;> simp
  · intro n t spelling
    rw [TokenStream.all, TokenStream.ofText, spelling.segments]
    rfl

namespace NumberTokens

/-- A number with a sign and a marker, and one that is octal up to its last digit. -/
def text : Text := "a = -0X1f; b = 018"

def marked : Token := ⟨.number, "-0X1f", ⟨⟨0, 4⟩, ⟨0, 9⟩⟩, none, none⟩

def mixed : Token := ⟨.number, "018", ⟨⟨0, 15⟩, ⟨0, 18⟩⟩, none, none⟩

/-- The first number is the integer it spells, and the second one spells none. -/
theorem marked_number_is_read_and_mixed_is_not :
    marked ∈ (TokenStream.ofText text).all ∧ IntSpelling (-31) marked.text ∧
    integer marked.text = .ok (some (-31)) ∧
    (TokenStream.ofText marked.text).all =
      [⟨.number, marked.text, ⟨⟨0, 0⟩, ⟨0, 5⟩⟩, none, none⟩,
        ⟨.endOfFile, [], ⟨⟨0, 5⟩, ⟨0, 5⟩⟩, none, none⟩] ∧
    mixed ∈ (TokenStream.ofText text).all ∧ integer mixed.text = .ok none ∧
    ¬∃ n, IntSpelling n mixed.text := by
  have first : marked ∈ (TokenStream.ofText text).all := by decide +kernel
  have second : mixed ∈ (TokenStream.ofText text).all := by decide +kernel
  have spelling : IntSpelling (-31) marked.text :=
    .minus (.hexadecimal (Or.inr rfl) (by decide) ⟨[1, 15], by decide, rfl, rfl⟩)
  have unread : integer mixed.text = .ok none := rfl
  obtain ⟨read, alone⟩ := integer_literals_mean_what_they_spell
  refine ⟨first, spelling, ((read text marked first rfl (by decide)).1 _).2 spelling,
    alone _ _ spelling, second, unread, ?_⟩
  exact (read text mixed second rfl (by decide)).2.1 unread

end NumberTokens

end Literal
end ProtoAtlas
