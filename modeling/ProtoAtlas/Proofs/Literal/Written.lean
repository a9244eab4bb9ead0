/-
# Literals that spell a given value

For every integer, every finite double-precision number and every text there is a
literal that is read back as exactly that value:

| value | literal |
| --- | --- |
| integer | its decimal digits, or hexadecimal ones if there are too many to be read |
| finite number | the digits of its exact decimal and a negative exponent |
| text | the double-quoted text with `\`, `"` and line feeds escaped |

Reading digits undoes writing them (`exists_digits`, `digitRun?_digits`), and none
of the characters in between is white space, a sign or an underscore, so the looser
rules of `Radix.read?` and `Binary64.read?` never apply.
-/

import Mathlib.Data.List.Basic
import Mathlib.Data.List.TakeWhile
import ProtoAtlas.Literal.String
import ProtoAtlas.Proofs.Literal.Answer
import ProtoAtlas.Proofs.Number.Exact

namespace ProtoAtlas

/-! ### Digits -/

/-- The character of a digit below sixteen. -/
def CodePoint.ofDigit (d : Nat) : CodePoint :=
  CodePoint.ofChar (Nat.digitChar d)

namespace Radix

theorem ofDigits_append (base : Nat) (ds : List Nat) (d : Nat) :
    ofDigits base (ds ++ [d]) = ofDigits base ds * base + d := by
  simp [ofDigits]

/-- **The digits of a number spell it**, and only zero starts with a zero. -/
theorem exists_digits (base : Nat) (hb : 1 < base) (n : Nat) :
    ∃ d ds, Nat.toDigits base n = (d :: ds).map Nat.digitChar ∧ (∀ e ∈ d :: ds, e < base) ∧
      ofDigits base (d :: ds) = n ∧ (d = 0 → ds = []) := by
  induction n using Nat.strongRecOn with
  | ind n ih =>
    by_cases small : n < base
    · refine ⟨n, [], Nat.toDigits_of_lt_base small, ?_, by simp [ofDigits], fun _ => rfl⟩
      intro e he
      rwa [List.mem_singleton.1 he]
    · have quotient : 0 < n / base := Nat.div_pos (by omega) (by omega)
      obtain ⟨d, ds, written, digit, value, zero⟩ := ih (n / base) (Nat.div_lt_self (by omega) hb)
      refine ⟨d, ds ++ [n % base], ?_, ?_, ?_, ?_⟩
      · rw [Nat.toDigits_of_base_le hb (by omega), written, ← List.cons_append, List.map_append]
        rfl
      · intro e he
        rw [← List.cons_append, List.mem_append, List.mem_singleton] at he
        rcases he with he | rfl
        · exact digit e he
        · exact Nat.mod_lt _ (by omega)
      · rw [← List.cons_append, ofDigits_append, value, Nat.mul_comm]
        exact Nat.div_add_mod n base
      · intro hd
        rw [hd, zero hd] at value
        exact absurd (value.symm.trans (by simp [ofDigits])) quotient.ne'

/-- What reading a number needs to know about a digit below sixteen. -/
theorem digit_facts {d : Nat} (h : d < 16) :
    (CodePoint.ofDigit d).isNumberPadding = false ∧
      Segment.isSign (CodePoint.ofDigit d) = false ∧
      CodePoint.ofDigit d ≠ CodePoint.ofChar '_' ∧
      (CodePoint.ofDigit d).toLower ≠ CodePoint.ofChar 'x' ∧
      (CodePoint.ofDigit d).isHexDigit = true := by
  revert d
  decide

/-- What reading a number needs to know about a digit below ten. -/
theorem decimal_facts {d : Nat} (h : d < 10) :
    (CodePoint.ofDigit d).decimal? = some d ∧ (CodePoint.ofDigit d).isDigit = true ∧
      CodePoint.ofDigit d ≠ CodePoint.ofChar '.' ∧ isRealMark (CodePoint.ofDigit d) = false := by
  revert d
  decide

theorem ofDigit_eq_zero {d : Nat} (h : d < 16) :
    CodePoint.ofDigit d = CodePoint.ofChar '0' ↔ d = 0 := by
  revert d
  decide

theorem digitIn?_ofDigit {base d : Nat} (hb : base ≤ 16) (h : d < base) :
    (CodePoint.ofDigit d).digitIn? base = some d := by
  have all : ∀ base ≤ 16, ∀ d < base, (CodePoint.ofDigit d).digitIn? base = some d := by
    decide +kernel
  exact all base hb d h

theorem digitRun?_digits {base : Nat} (hb : base ≤ 16) {d : Nat} {ds : List Nat}
    (digit : ∀ e ∈ d :: ds, e < base) :
    digitRun? base ((d :: ds).map CodePoint.ofDigit) = some (d :: ds) := by
  induction ds generalizing d with
  | nil =>
    have here : d < base := digit d List.mem_cons_self
    simp only [List.map_cons, List.map_nil, digitRun?, digitIn?_ofDigit hb here, Option.map_some]
  | cons e es ih =>
    have here : d < base := digit d List.mem_cons_self
    have rest : ∀ x ∈ e :: es, x < base := fun x hx => digit x (List.mem_cons_of_mem d hx)
    have next : CodePoint.ofDigit e ≠ CodePoint.ofChar '_' :=
      (digit_facts (show e < 16 by have := rest e List.mem_cons_self; omega)).2.2.1
    have run := ih rest
    rw [List.map_cons] at run
    simp only [List.map_cons, digitRun?, digitIn?_ofDigit hb here, if_neg next, run,
      Option.map_some]

end Radix

/-! ### Reading digits back -/

theorem Text.strip_eq_self {p : CodePoint → Bool} {t : Text} (h : ∀ c ∈ t, p c = false) :
    t.strip p = t := by
  have drop : ∀ u : Text, (∀ c ∈ u, p c = false) → u.dropWhile p = u := by
    intro u hu
    cases u with
    | nil => rfl
    | cons c cs => simp [hu c List.mem_cons_self]
  rw [Text.strip, drop t h, drop t.reverse fun c hc => h c (List.mem_reverse.1 hc),
    List.reverse_reverse]

namespace Radix

theorem splitSign_of_isSign {c : CodePoint} (h : Segment.isSign c = false) (cs : Text) :
    splitSign (c :: cs) = (false, c :: cs) := by
  rw [Segment.isSign, Bool.or_eq_false_iff, decide_eq_false_iff_not, decide_eq_false_iff_not] at h
  rw [splitSign, if_neg h.2, if_neg h.1]

theorem mem_map_ofDigit {base : Nat} (hb : base ≤ 16) {ds : List Nat} (digit : ∀ e ∈ ds, e < base)
    {c : CodePoint} (hc : c ∈ ds.map CodePoint.ofDigit) : ∃ e < 16, c = CodePoint.ofDigit e := by
  obtain ⟨e, he, rfl⟩ := List.mem_map.1 hc
  exact ⟨e, Nat.lt_of_lt_of_le (digit e he) hb, rfl⟩

theorem dropMarker_digits {r : Radix} (hr : r ≠ .octal) {ds : List Nat}
    (digit : ∀ e ∈ ds, e < 16) :
    r.dropMarker (ds.map CodePoint.ofDigit) = ds.map CodePoint.ofDigit := by
  unfold dropMarker
  split
  · next letter zero mark rest marked text =>
    have hx : letter = 'x' := by
      cases r with
      | octal => exact absurd rfl hr
      | decimal => cases marked
      | hexadecimal => exact (Option.some.inj marked).symm
    have hm : mark ∈ ds.map CodePoint.ofDigit := by rw [text]; simp
    obtain ⟨e, he, rfl⟩ := mem_map_ofDigit (le_refl 16) digit hm
    rw [if_neg, text]
    rintro ⟨-, same⟩
    rw [hx] at same
    exact (digit_facts he).2.2.2.1 same
  · rfl

/-- Digits of the base are read as the number they spell; there may be too many
only in base ten. -/
theorem read?_digits {r : Radix} (hr : r ≠ .octal) {d : Nat} {ds : List Nat}
    (digit : ∀ e ∈ d :: ds, e < r.base)
    (few : r = .decimal → (d :: ds).length ≤ maxDecimalDigits) :
    r.read? ((d :: ds).map CodePoint.ofDigit) = some (ofDigits r.base (d :: ds) : Int) := by
  have hb : r.base ≤ 16 := by cases r <;> decide
  have below : ∀ e ∈ d :: ds, e < 16 := fun e he => Nat.lt_of_lt_of_le (digit e he) hb
  have unpadded : ∀ c ∈ (d :: ds).map CodePoint.ofDigit, c.isNumberPadding = false := by
    intro c hc
    obtain ⟨e, he, rfl⟩ := mem_map_ofDigit (le_refl 16) below hc
    exact (digit_facts he).1
  have unsigned := splitSign_of_isSign (digit_facts (below d List.mem_cons_self)).2.1
    (ds.map CodePoint.ofDigit)
  rw [← List.map_cons] at unsigned
  simp only [read?, Text.strip_eq_self unpadded, unsigned, dropMarker_digits hr below,
    digitRun?_digits hb digit]
  rw [if_neg]
  · rfl
  · rintro ⟨decimal, many⟩
    have := few decimal
    omega

end Radix

/-- The decimal digits of a number, as a text. -/
theorem Text.exists_decimal (n : Nat) :
    ∃ d ds, Text.ofNat n = (d :: ds).map CodePoint.ofDigit ∧ (∀ e ∈ d :: ds, e < 10) ∧
      Radix.ofDigits 10 (d :: ds) = n ∧ (d = 0 → ds = []) := by
  obtain ⟨d, ds, written, digit, value, zero⟩ := Radix.exists_digits 10 (by decide) n
  refine ⟨d, ds, ?_, digit, value, zero⟩
  rw [Text.ofNat, written, List.map_map]
  rfl

/-- The hexadecimal digits of a number, as a text. -/
theorem Text.exists_hexadecimal (n : Nat) :
    ∃ d ds, Text.hex 0 n = (d :: ds).map CodePoint.ofDigit ∧ (∀ e ∈ d :: ds, e < 16) ∧
      Radix.ofDigits 16 (d :: ds) = n := by
  obtain ⟨d, ds, written, digit, value, -⟩ := Radix.exists_digits 16 (by decide) n
  refine ⟨d, ds, ?_, digit, value⟩
  simp only [Text.hex, Nat.zero_sub, List.replicate_zero, List.nil_append, written, List.map_map]
  rfl

/-! ### Integers -/

namespace Literal

/-- The literal of a natural number: hexadecimal only if there are too many decimal
digits. -/
def ofNat (n : Nat) : Text :=
  if n < 10 ^ maxDecimalDigits then Text.ofNat n else "0x" ++ Text.hex 0 n

/-- The literal of an integer. -/
def ofInt (n : Int) : Text :=
  if n < 0 then CodePoint.ofChar '-' :: ofNat n.natAbs else ofNat n.natAbs

/-- A decimal or a hexadecimal literal. -/
theorem ofNat_cases (n : Nat) :
    (∃ d ds, ofNat n = (d :: ds).map CodePoint.ofDigit ∧ (∀ e ∈ d :: ds, e < 10) ∧
      Radix.ofDigits 10 (d :: ds) = n ∧ (d = 0 → ds = []) ∧
      (d :: ds).length ≤ maxDecimalDigits) ∨
    ∃ d ds, ofNat n = "0x" ++ (d :: ds).map CodePoint.ofDigit ∧ (∀ e ∈ d :: ds, e < 16) ∧
      Radix.ofDigits 16 (d :: ds) = n := by
  unfold ofNat
  split_ifs with small
  · obtain ⟨d, ds, written, digit, value, zero⟩ := Text.exists_decimal n
    refine Or.inl ⟨d, ds, written, digit, value, zero, ?_⟩
    have length := (Nat.length_toDigits_le_iff (b := 10) (by decide)
      (show 0 < maxDecimalDigits by decide)).2 small
    rw [Text.ofNat] at written
    have same := congrArg List.length written
    rw [List.length_map, List.length_map] at same
    omega
  · obtain ⟨d, ds, written, digit, value⟩ := Text.exists_hexadecimal n
    exact Or.inr ⟨d, ds, by rw [written], digit, value⟩

theorem magnitude?_ofNat (n : Nat) : magnitude? (ofNat n) = some (n : Int) := by
  rcases ofNat_cases n with
    ⟨d, ds, written, digit, value, zero, few⟩ | ⟨d, ds, written, digit, value⟩
  · have read := Radix.read?_digits (r := .decimal) (by decide) digit fun _ => few
    rw [show Radix.decimal.base = 10 from rfl, value] at read
    rw [written]
    unfold magnitude?
    split
    · next first mark rest text =>
      rw [List.map_cons, List.cons.injEq] at text
      have hd : d < 16 := by have := digit d List.mem_cons_self; omega
      rw [if_neg, read]
      intro isZero
      rw [← text.1, Radix.ofDigit_eq_zero hd] at isZero
      rw [zero isZero] at text
      cases text.2
    · exact read
  · have read := Radix.read?_digits (r := .hexadecimal) (by decide) digit (by intro h; cases h)
    rw [show Radix.hexadecimal.base = 16 from rfl, value] at read
    rw [written]
    exact read

theorem ofNat_head (n : Nat) :
    ∃ d cs, ofNat n = CodePoint.ofDigit d :: cs ∧ d < 10 := by
  rcases ofNat_cases n with ⟨d, ds, written, digit, -⟩ | ⟨d, ds, written, -⟩
  · exact ⟨d, _, written, digit d List.mem_cons_self⟩
  · exact ⟨0, _, written, by decide⟩

/-- **An integer is read back from its literal.** -/
theorem integer_ofInt (n : Int) : integer (ofInt n) = .ok (some n) := by
  obtain ⟨d, cs, head, hd⟩ := ofNat_head n.natAbs
  have magnitude := magnitude?_ofNat n.natAbs
  unfold ofInt
  split_ifs with negative
  · rw [integer, if_neg (by simp), Radix.splitSign, if_pos rfl]
    simp only [magnitude, Option.map_some, if_true]
    rw [show -(n.natAbs : Int) = n by omega]
  · have unsigned := Radix.splitSign_of_isSign
      (Radix.digit_facts (show d < 16 by omega)).2.1 cs
    rw [← head] at unsigned
    rw [integer, if_neg (by simp [head]), unsigned]
    simp only [magnitude, Option.map_some, Bool.false_eq_true, if_false]
    rw [show (n.natAbs : Int) = n by omega]

/-! ### Finite numbers -/

/-- The literal of a finite number: its exact decimal. -/
def ofReal (x : Binary64) : Text :=
  let unsigned := Text.ofNat x.digits ++ ("e-" : Text) ++ Text.ofNat x.places
  if x.isNegative then CodePoint.ofChar '-' :: unsigned else unsigned

/-- Digits, `e-` and digits. -/
theorem ofReal_eq (x : Binary64) :
    ∃ ds es, ds ≠ [] ∧ es ≠ [] ∧ (∀ d ∈ ds, d < 10) ∧ (∀ e ∈ es, e < 10) ∧
      Radix.ofDigits 10 ds = x.digits ∧ Radix.ofDigits 10 es = x.places ∧
      ofReal x = (if x.isNegative then [CodePoint.ofChar '-'] else []) ++
        (ds.map CodePoint.ofDigit ++ CodePoint.ofChar 'e' :: CodePoint.ofChar '-' ::
          es.map CodePoint.ofDigit) := by
  obtain ⟨d, ds, written, digit, value, -⟩ := Text.exists_decimal x.digits
  obtain ⟨e, es, written', digit', value', -⟩ := Text.exists_decimal x.places
  refine ⟨d :: ds, e :: es, by simp, by simp, digit, digit', value, value', ?_⟩
  have marker : ("e-" : Text) = [CodePoint.ofChar 'e', CodePoint.ofChar '-'] := rfl
  simp only [ofReal, written, written', marker]
  split <;> simp

end Literal

namespace Binary64

theorem filterMap_decimal? {ds : List Nat} (digit : ∀ d ∈ ds, d < 10) :
    (ds.map CodePoint.ofDigit).filterMap CodePoint.decimal? = ds := by
  induction ds with
  | nil => rfl
  | cons d ds ih =>
    rw [List.map_cons, List.filterMap_cons, (Radix.decimal_facts (digit d List.mem_cons_self)).1]
    exact congrArg (d :: ·) (ih fun e he => digit e (List.mem_cons_of_mem d he))

theorem isDecimalDigit_of_mem {ds : List Nat} (digit : ∀ d ∈ ds, d < 10) {c : CodePoint}
    (hc : c ∈ ds.map CodePoint.ofDigit) : isDecimalDigit c = true := by
  obtain ⟨d, hd, rfl⟩ := List.mem_map.1 hc
  rw [isDecimalDigit, (Radix.decimal_facts (digit d hd)).1]
  rfl

theorem dropBreaks?_eq_self {t : Text} (h : ∀ c ∈ t, c ≠ CodePoint.ofChar '_') (afterDigit : Bool) :
    dropBreaks? afterDigit t = some t := by
  induction t generalizing afterDigit with
  | nil => rfl
  | cons c cs ih =>
    rw [dropBreaks?, if_neg (h c List.mem_cons_self),
      ih fun d hd => h d (List.mem_cons_of_mem c hd)]
    rfl

/-- Digits with a negative exponent are read as that decimal. -/
theorem unsigned?_digits (negative : Bool) {ds es : List Nat} (hds : ds ≠ []) (hes : es ≠ [])
    (digit : ∀ d ∈ ds, d < 10) (digit' : ∀ e ∈ es, e < 10) :
    unsigned? negative (ds.map CodePoint.ofDigit ++ CodePoint.ofChar 'e' :: CodePoint.ofChar '-' ::
        es.map CodePoint.ofDigit) =
      some (ofDecimal negative (Radix.ofDigits 10 ds) (-(Radix.ofDigits 10 es : Int))) := by
  have whole : ∀ c ∈ ds.map CodePoint.ofDigit, isDecimalDigit c = true :=
    fun c => isDecimalDigit_of_mem digit
  have stop : isDecimalDigit (CodePoint.ofChar 'e') = false := by decide
  have noPoint : CodePoint.ofChar 'e' ≠ CodePoint.ofChar '.' := by decide
  have nonempty : (ds.map CodePoint.ofDigit).isEmpty = false := by simpa using hds
  have exponent : exponent? (CodePoint.ofChar 'e' :: CodePoint.ofChar '-' ::
      es.map CodePoint.ofDigit) = some (-(Radix.ofDigits 10 es : Int)) := by
    have all : (es.map CodePoint.ofDigit).all isDecimalDigit = true :=
      List.all_eq_true.2 fun c => isDecimalDigit_of_mem digit'
    have nonempty : (es.map CodePoint.ofDigit).isEmpty = false := by simpa using hes
    rw [exponent?, if_pos (by decide), Radix.splitSign, if_pos rfl]
    simp only [all, nonempty, Bool.not_true, Bool.or_self, Bool.false_eq_true, if_false,
      ofDecimalDigits, filterMap_decimal? digit', Radix.signed, if_true]
  simp only [unsigned?, List.takeWhile_append_of_pos whole, List.dropWhile_append_of_pos whole,
    List.takeWhile_cons, List.dropWhile_cons, stop, Bool.false_eq_true, if_false, if_neg noPoint,
    List.append_nil, exponent, Option.map_some, ofDecimalDigits, filterMap_decimal? digit,
    nonempty, Bool.false_and, List.length_nil, Nat.cast_zero, sub_zero]

/-- No character of a literal is white space or an underscore. -/
theorem plain_ofReal (x : Binary64) :
    ∀ c ∈ Literal.ofReal x, c.isNumberPadding = false ∧ c ≠ CodePoint.ofChar '_' := by
  obtain ⟨ds, es, -, -, digit, digit', -, -, written⟩ := Literal.ofReal_eq x
  have digits : ∀ l : List Nat, (∀ d ∈ l, d < 10) → ∀ c ∈ l.map CodePoint.ofDigit,
      c.isNumberPadding = false ∧ c ≠ CodePoint.ofChar '_' := by
    intro l small c hc
    obtain ⟨d, hd, rfl⟩ := Radix.mem_map_ofDigit (by decide : 10 ≤ 16) small hc
    exact ⟨(Radix.digit_facts hd).1, (Radix.digit_facts hd).2.2.1⟩
  intro c hc
  rw [written, List.mem_append, List.mem_append, List.mem_cons, List.mem_cons] at hc
  rcases hc with hc | hc | rfl | rfl | hc
  · split at hc
    · rw [List.mem_singleton.1 hc]
      decide
    · cases hc
  · exact digits ds digit c hc
  · decide
  · decide
  · exact digits es digit' c hc

/-- What starts with a digit is no word for an infinity or for no number. -/
theorem special?_digit (negative : Bool) {d : Nat} (hd : d < 10) (rest : Text) :
    special? negative (CodePoint.ofDigit d :: rest) = none := by
  have first : ∀ d < 10, (CodePoint.ofDigit d).toLower ≠ CodePoint.ofChar 'i' ∧
      (CodePoint.ofDigit d).toLower ≠ CodePoint.ofChar 'n' := by decide
  have different : ∀ w : Text, w.head? = some (CodePoint.ofChar 'i') ∨
      w.head? = some (CodePoint.ofChar 'n') → Text.lower (CodePoint.ofDigit d :: rest) ≠ w := by
    rintro w starts rfl
    rw [Text.lower, List.map_cons, List.head?_cons, Option.some.injEq, Option.some.injEq] at starts
    exact starts.elim (first d hd).1 (first d hd).2
  simp only [special?, different "inf" (Or.inl rfl), different "infinity" (Or.inl rfl),
    different "nan" (Or.inr rfl), or_self, if_false]

/-- **A finite number is read back from its literal.** -/
theorem read?_ofReal {x : Binary64} (finite : x.word < infinityWord) :
    read? (Literal.ofReal x) = some x := by
  obtain ⟨ds, es, hds, hes, digit, digit', value, value', written⟩ := Literal.ofReal_eq x
  have number := unsigned?_digits x.isNegative hds hes digit digit'
  rw [value, value', ofDecimal_exact finite] at number
  obtain ⟨d, ds, rfl⟩ := List.exists_cons_of_ne_nil hds
  have hd : d < 10 := digit d List.mem_cons_self
  rw [List.map_cons, List.cons_append] at number written
  generalize ds.map CodePoint.ofDigit ++ CodePoint.ofChar 'e' :: CodePoint.ofChar '-' ::
    es.map CodePoint.ofDigit = rest at number written
  have sign : Radix.splitSign (Literal.ofReal x) = (x.isNegative, CodePoint.ofDigit d :: rest) := by
    rw [written]
    split
    · next negative =>
      rw [negative]
      rfl
    · next positive =>
      rw [Bool.not_eq_true] at positive
      rw [positive]
      exact Radix.splitSign_of_isSign (Radix.digit_facts (show d < 16 by omega)).2.1 rest
  simp only [read?, Text.strip_eq_self fun c hc => (plain_ofReal x c hc).1,
    dropBreaks?_eq_self fun c hc => (plain_ofReal x c hc).2, Option.bind_eq_bind,
    Option.bind_some, sign, special?_digit x.isNegative hd rest, number, Option.none_or]

end Binary64

namespace Literal

theorem dropSigns_digit {d : Nat} (hd : d < 16) (cs : Text) :
    dropSigns (CodePoint.ofDigit d :: cs) = CodePoint.ofDigit d :: cs := by
  have sign := (Radix.digit_facts hd).2.1
  rw [Segment.isSign] at sign
  rw [dropSigns, List.dropWhile_cons, sign]
  rfl

theorem dropSigns_negative (cs : Text) :
    dropSigns (CodePoint.ofChar '-' :: cs) = dropSigns cs := rfl

theorem dropSigns_ofReal (x : Binary64) :
    ∃ ds es : List Nat, ds ≠ [] ∧ (∀ d ∈ ds, d < 10) ∧ (∀ e ∈ es, e < 10) ∧
      dropSigns (ofReal x) = ds.map CodePoint.ofDigit ++ CodePoint.ofChar 'e' ::
        CodePoint.ofChar '-' :: es.map CodePoint.ofDigit := by
  obtain ⟨ds, es, hds, -, digit, digit', -, -, written⟩ := ofReal_eq x
  refine ⟨ds, es, hds, digit, digit', ?_⟩
  obtain ⟨d, ds, rfl⟩ := List.exists_cons_of_ne_nil hds
  have hd : d < 16 := by have := digit d List.mem_cons_self; omega
  rw [written, List.map_cons, List.cons_append]
  split
  · exact dropSigns_digit hd _
  · exact dropSigns_digit hd _

theorem startsLikeNumber_ofReal (x : Binary64) : StartsLikeNumber (ofReal x) := by
  obtain ⟨ds, es, hds, -, digit, -, -, -, written⟩ := ofReal_eq x
  obtain ⟨d, ds, rfl⟩ := List.exists_cons_of_ne_nil hds
  refine ⟨_, CodePoint.ofDigit d, _, written, ?_, Or.inl (Radix.decimal_facts
    (digit d List.mem_cons_self)).2.1⟩
  intro s hs
  split at hs
  · rw [List.mem_singleton.1 hs]
    decide
  · cases hs

theorem isRealLiteral_ofReal (x : Binary64) : Rule.isRealLiteral (ofReal x) = true := by
  obtain ⟨ds, es, -, digit, digit', body⟩ := dropSigns_ofReal x
  have letters : ∀ c ∈ dropSigns (ofReal x), c.toLower ≠ CodePoint.ofChar 'x' := by
    have digits : ∀ l : List Nat, (∀ d ∈ l, d < 10) → ∀ c ∈ l.map CodePoint.ofDigit,
        c.toLower ≠ CodePoint.ofChar 'x' := by
      intro l small c hc
      obtain ⟨d, hd, rfl⟩ := Radix.mem_map_ofDigit (by decide : 10 ≤ 16) small hc
      exact (Radix.digit_facts hd).2.2.2.1
    intro c hc
    rw [body, List.mem_append, List.mem_cons, List.mem_cons] at hc
    rcases hc with hc | rfl | rfl | hc
    · exact digits ds digit c hc
    · decide
    · decide
    · exact digits es digit' c hc
  have unmarked : ∀ c : CodePoint, c.toLower = CodePoint.ofChar 'x' →
      (dropSigns (ofReal x)).take 2 ≠ [CodePoint.ofChar '0', c] := by
    intro c marker same
    have mem : c ∈ (dropSigns (ofReal x)).take 2 := by rw [same]; simp
    exact letters c (List.mem_of_mem_take mem) marker
  have hx := unmarked (CodePoint.ofChar 'x') (by decide)
  have hX := unmarked (CodePoint.ofChar 'X') (by decide)
  have marked : (dropSigns (ofReal x)).any isRealMark = true := by
    rw [body]
    simp only [List.any_append, List.any_cons]
    rw [show isRealMark (CodePoint.ofChar 'e') = true by decide, Bool.true_or, Bool.or_true]
  rw [Rule.isRealLiteral, Bool.and_eq_true, Bool.not_eq_true', Bool.or_eq_false_iff,
    decide_eq_false_iff_not, decide_eq_false_iff_not]
  exact ⟨⟨hx, hX⟩, marked⟩

theorem real_ofReal {x : Binary64} (finite : x.word < Binary64.infinityWord) :
    real (ofReal x) = .ok (some x) := by
  rw [real, not_isSpecialWord (startsLikeNumber_ofReal x), Binary64.read?_ofReal finite]
  rfl

theorem isRealLiteral_ofInt (n : Int) : Rule.isRealLiteral (ofInt n) = false := by
  obtain ⟨d, cs, head, hd⟩ := ofNat_head n.natAbs
  have signs : dropSigns (ofInt n) = ofNat n.natAbs := by
    have digits := dropSigns_digit (show d < 16 by omega) cs
    rw [← head] at digits
    unfold ofInt
    split
    · rw [dropSigns_negative, digits]
    · exact digits
  simp only [Rule.isRealLiteral, signs]
  rcases ofNat_cases n.natAbs with ⟨d, ds, written, digit, -⟩ | ⟨d, ds, written, -⟩
  · have unmarked : ((d :: ds).map CodePoint.ofDigit).any isRealMark = false := by
      rw [List.any_eq_false]
      intro c hc
      obtain ⟨e, he, rfl⟩ := List.mem_map.1 hc
      simp [(Radix.decimal_facts (digit e he)).2.2.2]
    rw [written, Bool.and_eq_false_iff]
    exact Or.inr unmarked
  · rw [written]
    rfl

/-! ### Texts -/

theorem unescape_cons {c : CodePoint} (h : c ≠ CodePoint.ofChar '\\') (rest : Text) :
    unescape (c :: rest) = c :: unescape rest := by
  cases rest with
  | nil => rw [unescape, unescape]
  | cons e rest => rw [unescape, if_neg h]

theorem unescape_escape {e c : CodePoint} (h : simpleEscape? e = some c) (rest : Text) :
    unescape (CodePoint.ofChar '\\' :: e :: rest) = c :: unescape rest := by
  rw [unescape, if_pos rfl, escape, h]
  rfl

/-- How a character is written: a backslash and the letter of its escape, or itself. -/
theorem escapeChar_cases (c : CodePoint) :
    (∃ e, escapeChar c = [CodePoint.ofChar '\\', e] ∧ simpleEscape? e = some c) ∨
      escapeChar c = [c] ∧ c ≠ CodePoint.ofChar '\\' ∧ c ≠ CodePoint.ofChar '"' := by
  unfold escapeChar
  split_ifs with backslash quote newline
  · subst backslash
    exact Or.inl ⟨_, rfl, by decide⟩
  · subst quote
    exact Or.inl ⟨_, rfl, by decide⟩
  · subst newline
    exact Or.inl ⟨_, rfl, by decide⟩
  · exact Or.inr ⟨rfl, backslash, quote⟩

theorem unescape_escaped (t : Text) : unescape (t.flatMap escapeChar) = t := by
  induction t with
  | nil => rw [List.flatMap_nil, unescape]
  | cons c cs ih =>
    rw [List.flatMap_cons]
    rcases escapeChar_cases c with ⟨e, written, escape⟩ | ⟨written, plain, -⟩
    · rw [written, List.cons_append, List.cons_append, List.nil_append, unescape_escape escape, ih]
    · rw [written, List.cons_append, List.nil_append, unescape_cons plain, ih]

/-- In an escaped text the backslashes at the end come in pairs. -/
theorem endsInEscape_escaped (t : Text) : endsInEscape (t.flatMap escapeChar) = false := by
  rw [endsInEscape, decide_eq_false_iff_not]
  induction t using List.reverseRecOn with
  | nil => simp
  | append_singleton t c ih =>
    rw [List.flatMap_append, List.flatMap_singleton, List.reverse_append]
    unfold escapeChar
    split_ifs with backslash quote newline
    · change ¬((CodePoint.ofChar '\\' :: CodePoint.ofChar '\\' ::
        (t.flatMap escapeChar).reverse).takeWhile _).length % 2 = 1
      simp only [List.takeWhile_cons, decide_true, if_true, List.length_cons]
      omega
    · change ¬((CodePoint.ofChar '"' :: _).takeWhile _).length % 2 = 1
      rw [List.takeWhile_cons_of_neg (by decide)]
      decide
    · change ¬((CodePoint.ofChar 'n' :: _).takeWhile _).length % 2 = 1
      rw [List.takeWhile_cons_of_neg (by decide)]
      decide
    · rw [List.reverse_singleton, List.singleton_append,
        List.takeWhile_cons_of_neg (by simpa using backslash)]
      decide

/-- **A text is read back from its literal.** -/
theorem stringValue_quote (t : Text) : stringValue (quote t) = t := by
  rw [quote, List.cons_append, stringValue, if_pos (Or.inl rfl), dropClosingQuote,
    List.getLast?_concat, List.dropLast_concat, endsInEscape_escaped]
  exact unescape_escaped t

end Literal

end ProtoAtlas
