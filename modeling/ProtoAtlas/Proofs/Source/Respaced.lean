/-
# A text written with other blanks

The tokens of a text do not depend on what stood between them: written one after the
other, with any blanks between neighbours, they are the tokens of the new text
(`TokenStream.lexemes_respaced`).

A token is cut off by what follows it, and there it matters that a blank continues no
token (`Segment.classify_parted`): it is no digit, no sign, no letter and no point.  The
one token that takes blanks in is a string.  A string that is not closed reaches to the
end of its text, so it is the last token, and nothing follows it in the new text either.
-/

import ProtoAtlas.Proofs.Source.Spaced

namespace ProtoAtlas

/-! ### Blanks -/

/-- The blanks, one by one. -/
def CodePoint.blanks : List CodePoint :=
  (blankRanges.flatMap fun r => List.range' r.1 (r.2 + 1 - r.1)).filterMap ofNat?

theorem CodePoint.mem_blanks {b : CodePoint} (h : b.isBlank = true) : b ∈ blanks := by
  obtain ⟨range, listed, inside⟩ := List.any_eq_true.1 h
  rw [Bool.and_eq_true, decide_eq_true_eq, decide_eq_true_eq] at inside
  refine List.mem_filterMap.2 ⟨b.val, List.mem_flatMap.2 ⟨range, listed, ?_⟩, dif_pos b.val_lt⟩
  rw [List.mem_range'_1]
  omega

/-- A text that is empty or starts with a blank. -/
def Text.Parted (t : Text) : Prop := ∀ b ∈ t.head?, b.isBlank = true

theorem Text.parted_nil : Text.Parted [] := fun _ h => absurd h (Option.not_mem_none _)

namespace Segment

/-- What continues no number and no identifier. -/
structure Neutral (c : CodePoint) : Prop where
  digit : c.isDigit = false
  hexDigit : c.isHexDigit = false
  part : isIdentifierPart c = false
  sign : isSign c = false
  point : c ≠ CodePoint.ofChar '.'

theorem neutral_of_isBlank {b : CodePoint} (h : b.isBlank = true) : Neutral b := by
  have all : ∀ c ∈ CodePoint.blanks, c.isDigit = false ∧ c.isHexDigit = false ∧
      isIdentifierPart c = false ∧ isSign c = false ∧ c ≠ CodePoint.ofChar '.' := by
    decide +kernel
  obtain ⟨digit, hexDigit, part, sign, point⟩ := all b (CodePoint.mem_blanks h)
  exact ⟨digit, hexDigit, part, sign, point⟩

theorem Neutral.ne_letter {c : CodePoint} (h : Neutral c) {m : Char}
    (letter : isIdentifierPart (CodePoint.ofChar m) = true) : c ≠ CodePoint.ofChar m := by
  rintro rfl
  rw [h.part] at letter
  cases letter

/-! ### Strings -/

theorem stringLength_le (quote : CodePoint) (t : Text) : stringLength quote t ≤ t.length := by
  fun_induction stringLength quote t with
  | case1 => exact Nat.le_refl _
  | case2 => exact Nat.le_refl _
  | case3 => simp
  | case4 d cs _ ih =>
    simp only [List.length_cons]
    omega
  | case5 c d cs _ _ ih =>
    simp only [List.length_cons] at ih ⊢
    omega

theorem stringLength_pos (quote d : CodePoint) (cs : Text) : 0 < stringLength quote (d :: cs) := by
  unfold stringLength
  split
  · next empty => cases empty
  · exact Nat.one_pos
  · split
    · exact Nat.one_pos
    · split <;> omega

/-- A string ends where it did, if it ended before the end of the text or nothing follows
it now. -/
theorem stringLength_parted (quote : CodePoint) (t : Text) {rest : Text}
    (closed : rest = [] ∨ stringLength quote t < t.length) :
    stringLength quote (t.take (stringLength quote t) ++ rest) = stringLength quote t := by
  fun_induction stringLength quote t with
  | case1 =>
    rcases closed with rfl | closed
    · rfl
    · exact absurd closed (Nat.lt_irrefl _)
  | case2 c =>
    rcases closed with rfl | closed
    · rfl
    · exact absurd closed (Nat.lt_irrefl _)
  | case3 d cs =>
    rw [List.take_succ_cons, List.take_zero, List.singleton_append]
    cases rest with
    | nil => rfl
    | cons r rs => rw [stringLength, if_pos rfl]
  | case4 d cs unquoted ih =>
    have inner := ih (closed.imp_right fun h => by
      simp only [List.length_cons] at h
      omega)
    rw [Nat.add_comm 2, List.take_succ_cons, List.take_succ_cons, List.cons_append,
      List.cons_append, stringLength, if_neg unquoted, if_pos rfl, inner, Nat.add_comm]
  | case5 c d cs unquoted plain ih =>
    have inner := ih (closed.imp_right fun h => by
      simp only [List.length_cons] at h ⊢
      omega)
    obtain ⟨n, hn⟩ := Nat.exists_eq_add_one_of_ne_zero (stringLength_pos quote d cs).ne'
    rw [hn, List.take_succ_cons, List.cons_append] at inner
    rw [Nat.add_comm 1, List.take_succ_cons, hn, List.take_succ_cons, List.cons_append,
      List.cons_append, stringLength, if_neg unquoted, if_neg plain, inner, Nat.add_comm]

/-! ### Runs and numbers -/

theorem drop_runLength (p : CodePoint → Bool) (t : Text) :
    t.drop (runLength p t) = t.dropWhile p := by
  calc t.drop (t.takeWhile p).length
    _ = (t.takeWhile p ++ t.dropWhile p).drop (t.takeWhile p).length := by
      rw [List.takeWhile_append_dropWhile]
    _ = t.dropWhile p := List.drop_left

/-- A run ends where it did in front of what does not continue it. -/
theorem runLength_stop {p : CodePoint → Bool} (t : Text) {rest : Text}
    (stop : ∀ c ∈ rest.head?, p c = false) :
    runLength p (t.take (runLength p t) ++ rest) = runLength p t := by
  have all : ∀ c ∈ t.takeWhile p, p c = true := fun c hc => List.mem_takeWhile_imp hc
  rw [take_runLength, runLength, List.takeWhile_append_of_pos all]
  cases rest with
  | nil => rw [List.takeWhile_nil, List.append_nil, runLength]
  | cons c cs => rw [List.takeWhile_cons_of_neg (by simp [stop c rfl]), List.append_nil, runLength]

theorem runLength_le (p : CodePoint → Bool) (t : Text) : runLength p t ≤ t.length :=
  (List.takeWhile_prefix p).length_le

theorem exponentLength_le (t : Text) : exponentLength t ≤ t.length := by
  rw [exponentLength.eq_def]
  split
  · exact Nat.le_refl _
  · next c cs =>
    split
    · split
      · exact Nat.le_refl _
      · next d ds =>
        have signed := runLength_le CodePoint.isDigit ds
        have unsigned := runLength_le CodePoint.isDigit (d :: ds)
        split <;> simp only [List.length_cons] at unsigned ⊢ <;> omega
    · exact Nat.zero_le _

theorem numberLength_le (t : Text) : numberLength t ≤ t.length := by
  have decimal : ∀ t, decimalLength t ≤ t.length := by
    intro t
    have digits := runLength_le (fun c => c.isDigit || c = CodePoint.ofChar '.') t
    have exponent := exponentLength_le (t.drop (runLength (fun c => c.isDigit ||
      c = CodePoint.ofChar '.') t))
    rw [List.length_drop] at exponent
    unfold decimalLength
    dsimp only
    omega
  unfold numberLength
  split
  · next zero mark rest =>
    split
    · have hex := runLength_le CodePoint.isHexDigit rest
      simp only [List.length_cons]
      omega
    · exact decimal _
  · exact decimal _

section Parted

variable {rest : Text} (parted : rest.Parted)
include parted

theorem startsUnsigned_parted : startsUnsigned rest = false := by
  cases rest with
  | nil => rfl
  | cons b cs =>
    have neutral := neutral_of_isBlank (parted b rfl)
    rw [startsUnsigned, neutral.digit, decide_eq_false neutral.point]
    rfl

omit parted in
/-- An exponent without a sign. -/
theorem exponentLength_unsigned {c : CodePoint}
    (marker : c = CodePoint.ofChar 'e' ∨ c = CodePoint.ofChar 'E') {cs : Text}
    (unsigned : ∀ d ∈ cs.head?, isSign d = false) :
    exponentLength (c :: cs) = 1 + runLength CodePoint.isDigit cs := by
  rw [exponentLength.eq_def]
  dsimp only
  rw [if_pos marker]
  cases cs with
  | nil => rfl
  | cons d ds =>
    dsimp only
    rw [if_neg (by simp [unsigned d rfl])]

theorem exponentLength_blank : exponentLength rest = 0 := by
  cases rest with
  | nil => rfl
  | cons b cs =>
    have neutral := neutral_of_isBlank (parted b rfl)
    rw [exponentLength.eq_def]
    refine if_neg ?_
    rintro (letter | letter)
    · exact neutral.ne_letter (by decide) letter
    · exact neutral.ne_letter (by decide) letter

theorem exponentLength_parted (t : Text) :
    exponentLength (t.take (exponentLength t) ++ rest) = exponentLength t := by
  have stop : ∀ b ∈ rest.head?, b.isDigit = false := fun b hb =>
    (neutral_of_isBlank (parted b hb)).digit
  cases t with
  | nil => exact exponentLength_blank parted
  | cons c cs =>
    by_cases marker : c = CodePoint.ofChar 'e' ∨ c = CodePoint.ofChar 'E'
    · by_cases unsigned : ∀ d ∈ cs.head?, isSign d = false
      · rw [exponentLength_unsigned marker unsigned, Nat.add_comm 1, List.take_succ_cons,
          List.cons_append, exponentLength_unsigned marker, runLength_stop cs stop, Nat.add_comm]
        -- The digits may be missing, and then the blank stands in their place.
        intro d hd
        cases cs with
        | nil =>
          rw [List.take_nil, List.nil_append] at hd
          exact (neutral_of_isBlank (parted d hd)).sign
        | cons d' ds =>
          cases hn : runLength CodePoint.isDigit (d' :: ds) with
          | zero =>
            rw [hn, List.take_zero, List.nil_append] at hd
            exact (neutral_of_isBlank (parted d hd)).sign
          | succ n =>
            rw [hn, List.take_succ_cons, List.cons_append] at hd
            exact unsigned d hd
      · cases cs with
        | nil => exact absurd (fun d hd => absurd hd (Option.not_mem_none d)) unsigned
        | cons d ds =>
          have sign : isSign d = true := by
            by_contra h
            refine unsigned fun d' hd' => ?_
            cases hd'
            exact Bool.eq_false_iff.2 h
          have length : ∀ us, exponentLength (c :: d :: us) =
              2 + runLength CodePoint.isDigit us := by
            intro us
            rw [exponentLength.eq_def]
            dsimp only
            rw [if_pos marker, if_pos sign]
          rw [length, Nat.add_comm 2, List.take_succ_cons, List.take_succ_cons, List.cons_append,
            List.cons_append, length, runLength_stop ds stop, Nat.add_comm]
    · have none : exponentLength (c :: cs) = 0 := by
        rw [exponentLength.eq_def]
        exact if_neg marker
      rw [none, List.take_zero, List.nil_append]
      exact exponentLength_blank parted

theorem decimalLength_parted (t : Text) :
    decimalLength (t.take (decimalLength t) ++ rest) = decimalLength t := by
  unfold decimalLength
  dsimp only
  generalize hp : (fun c : CodePoint => c.isDigit || decide (c = CodePoint.ofChar '.')) = p
  generalize hu : t.drop (runLength p t) = u
  have stop : ∀ c ∈ (u.take (exponentLength u) ++ rest).head?, p c = false := by
    intro c hc
    cases hn : exponentLength u with
    | zero =>
      rw [hn, List.take_zero, List.nil_append] at hc
      have neutral := neutral_of_isBlank (parted c hc)
      rw [← hp]
      simp [neutral.digit, neutral.point]
    | succ n =>
      cases u with
      | nil => cases hn
      | cons first cs =>
        rw [hn, List.take_succ_cons, List.cons_append] at hc
        cases hc
        have dropped : t.dropWhile p = c :: cs := by
          rw [← hu, drop_runLength]
        have head := List.head?_dropWhile_not p t
        rw [dropped] at head
        simpa using head
  have split : t.take (runLength p t + exponentLength u) ++ rest =
      t.take (runLength p t) ++ (u.take (exponentLength u) ++ rest) := by
    rw [List.take_add, hu, List.append_assoc]
  have digits := runLength_stop t stop
  have short : (t.take (runLength p t)).length = runLength p t := by
    rw [List.length_take, Nat.min_eq_left]
    exact (List.takeWhile_prefix p).length_le
  rw [split, digits, List.drop_append_of_le_length (by omega), List.drop_eq_nil_of_le (by omega),
    List.nil_append, exponentLength_parted parted]

omit parted in
/-- Without the marker of a hexadecimal number behind a zero a number is a decimal one. -/
theorem numberLength_decimal {c : CodePoint} {cs : Text}
    (plain : ∀ mark ∈ cs.head?, ¬(c = CodePoint.ofChar '0' ∧
      (mark = CodePoint.ofChar 'x' ∨ mark = CodePoint.ofChar 'X'))) :
    numberLength (c :: cs) = decimalLength (c :: cs) := by
  cases cs with
  | nil => rfl
  | cons mark cs => rw [numberLength, if_neg (plain mark rfl)]

theorem numberLength_parted {c : CodePoint} {cs : Text}
    (start : startsUnsigned (c :: cs) = true) :
    numberLength ((c :: cs).take (numberLength (c :: cs)) ++ rest) = numberLength (c :: cs) := by
  by_cases plain : ∀ mark ∈ cs.head?, ¬(c = CodePoint.ofChar '0' ∧
      (mark = CodePoint.ofChar 'x' ∨ mark = CodePoint.ofChar 'X'))
  · obtain ⟨n, hn⟩ := Nat.exists_eq_add_one_of_ne_zero (numberLength_pos start).ne'
    have decimal := decimalLength_parted parted (c :: cs)
    rw [numberLength_decimal plain] at hn ⊢
    rw [hn, List.take_succ_cons, List.cons_append] at decimal ⊢
    rw [numberLength_decimal, decimal]
    -- The second character is the same as before, or a blank.
    intro mark hmark
    cases hcs : cs.take n with
    | nil =>
      rw [hcs, List.nil_append] at hmark
      have neutral := neutral_of_isBlank (parted mark hmark)
      rintro ⟨-, letter | letter⟩
      · exact neutral.ne_letter (by decide) letter
      · exact neutral.ne_letter (by decide) letter
    | cons d ds =>
      rw [hcs] at hmark
      cases hmark
      refine plain mark ?_
      cases cs with
      | nil => rw [List.take_nil] at hcs; cases hcs
      | cons d' ds' =>
        cases n with
        | zero => cases hcs
        | succ n => cases hcs; rfl
  · cases cs with
    | nil => exact absurd (fun mark h => absurd h (Option.not_mem_none mark)) plain
    | cons mark cs =>
      have hex : c = CodePoint.ofChar '0' ∧
          (mark = CodePoint.ofChar 'x' ∨ mark = CodePoint.ofChar 'X') := by
        by_contra h
        refine plain fun mark' hmark' => ?_
        cases hmark'
        exact h
      have stop : ∀ b ∈ rest.head?, b.isHexDigit = false := fun b hb =>
        (neutral_of_isBlank (parted b hb)).hexDigit
      have length : ∀ us, numberLength (c :: mark :: us) =
          2 + runLength CodePoint.isHexDigit us := fun us => by
        rw [numberLength, if_pos hex]
      rw [length, Nat.add_comm 2, List.take_succ_cons, List.take_succ_cons, List.cons_append,
        List.cons_append, length, runLength_stop cs stop, Nat.add_comm]

omit parted in
/-- A number that starts with a point has at least one digit behind it. -/
theorem startsUnsigned_take {c : CodePoint} {cs : Text} (start : startsUnsigned (c :: cs) = true)
    (rest : Text) :
    startsUnsigned ((c :: cs).take (numberLength (c :: cs)) ++ rest) = true := by
  obtain ⟨n, hn⟩ := Nat.exists_eq_add_one_of_ne_zero (numberLength_pos start).ne'
  rw [hn, List.take_succ_cons, List.cons_append, startsUnsigned]
  rw [startsUnsigned, Bool.or_eq_true, Bool.and_eq_true, decide_eq_true_eq] at start
  rcases start with digit | ⟨rfl, digit⟩
  · rw [digit]
    rfl
  · cases cs with
    | nil => cases digit
    | cons d ds =>
      have digit : d.isDigit = true := digit
      have long : 2 ≤ numberLength (CodePoint.ofChar '.' :: d :: ds) := by
        rw [numberLength_decimal fun _ _ h => absurd h.1 (by decide)]
        simp only [decimalLength, runLength, List.takeWhile_cons, digit, decide_true,
          Bool.or_true, Bool.true_or, if_true, List.length_cons]
        omega
      obtain ⟨k, rfl⟩ := Nat.exists_eq_add_one_of_ne_zero (show n ≠ 0 by omega)
      simp [digit]

end Parted

/-! ### Tokens -/

/-- A quote starts only strings. -/
theorem classify_quote {c : CodePoint} (quote : isQuote c = true) (cs : Text) :
    classify c cs = (.token .string, stringLength c cs) := by
  have facts : ∀ q ∈ [CodePoint.ofChar '"', CodePoint.ofChar '\''],
      q.isBlank = false ∧ q ≠ CodePoint.ofChar '/' := by decide
  have listed : c ∈ [CodePoint.ofChar '"', CodePoint.ofChar '\''] := by
    simpa [isQuote] using quote
  obtain ⟨blank, slash⟩ := facts c listed
  simp only [classify, blank, slash, quote, false_and, Bool.false_eq_true, if_false, if_true]

/-- A digit, or a point in front of a digit, starts only numbers. -/
theorem classify_unsigned {c : CodePoint} {cs : Text} (start : startsUnsigned (c :: cs) = true) :
    classify c cs = (.token .number, numberLength (c :: cs) - 1) := by
  have other : ∀ d : CodePoint, d.isDigit = false → d ≠ CodePoint.ofChar '.' → c ≠ d := by
    rintro d digit point rfl
    rcases startsUnsigned_cons start with h | h
    · rw [digit] at h
      cases h
    · exact point h
  have blank : c.isBlank = false := by
    rw [Bool.eq_false_iff]
    intro blank
    have neutral := neutral_of_isBlank blank
    exact other c neutral.digit neutral.point rfl
  have slash : c ≠ CodePoint.ofChar '/' := other _ (by decide) (by decide)
  have quote : isQuote c = false := by
    rw [isQuote, decide_eq_false (other (CodePoint.ofChar '"') (by decide) (by decide)),
      decide_eq_false (other (CodePoint.ofChar '\'') (by decide) (by decide))]
    rfl
  simp only [classify, blank, slash, quote, start, false_and, Bool.false_eq_true, if_false, if_true]

/-- A sign in front of a number belongs to the number. -/
theorem classify_signed {c : CodePoint} {cs : Text} (sign : isSign c = true)
    (start : startsUnsigned cs = true) : classify c cs = (.token .number, numberLength cs) := by
  have facts : ∀ d ∈ [CodePoint.ofChar '+', CodePoint.ofChar '-'], d.isBlank = false ∧
      d ≠ CodePoint.ofChar '/' ∧ isQuote d = false ∧ d.isDigit = false ∧
      d ≠ CodePoint.ofChar '.' := by decide
  have listed : c ∈ [CodePoint.ofChar '+', CodePoint.ofChar '-'] := by
    simpa [isSign] using sign
  obtain ⟨blank, slash, quote, digit, point⟩ := facts c listed
  have unsigned : startsUnsigned (c :: cs) = false := by
    rw [startsUnsigned, digit, decide_eq_false point]
    rfl
  simp only [classify, blank, slash, quote, unsigned, sign, start, false_and, Bool.and_self,
    Bool.false_eq_true, if_false, if_true]

/-- A mark in front of a blank is a token of its own. -/
theorem classify_mark {m : Char} {kind : TokenKind} (listed : (m, kind) ∈ marks) {rest : Text}
    (parted : rest.Parted) : classify (CodePoint.ofChar m) rest = (.token kind, 0) := by
  have facts : ∀ mark ∈ marks, (CodePoint.ofChar mark.1).isBlank = false ∧
      CodePoint.ofChar mark.1 ≠ CodePoint.ofChar '/' ∧
      isQuote (CodePoint.ofChar mark.1) = false ∧ (CodePoint.ofChar mark.1).isDigit = false ∧
      isIdentifierStart (CodePoint.ofChar mark.1) = false ∧
      punctuation? (CodePoint.ofChar mark.1) = some mark.2 := by decide
  obtain ⟨blank, slash, quote, digit, letter, punctuation⟩ := facts (m, kind) listed
  have number : startsUnsigned (CodePoint.ofChar m :: rest) = false := by
    rw [startsUnsigned, digit, Bool.false_or, Bool.and_eq_false_iff]
    right
    cases rest with
    | nil => rfl
    | cons b cs => exact (neutral_of_isBlank (parted b rfl)).digit
  simp only [classify, blank, slash, quote, number, startsUnsigned_parted parted, letter,
    punctuation, false_and, Bool.and_false, Bool.false_eq_true, if_false]

/-- **A token ends where it did in front of a blank.**  Only a string that reached to the
end of its text has to stay at the end. -/
theorem classify_parted {c : CodePoint} {cs : Text} {kind : TokenKind} {more : Nat}
    (cut : classify c cs = (.token kind, more)) {rest : Text} (parted : rest.Parted)
    (followed : rest = [] ∨ cs.drop more ≠ []) :
    classify c (cs.take more ++ rest) = (.token kind, (cs.take more).length) := by
  cases tokenStart_of_classify cut with
  | string quote =>
    have closed : rest = [] ∨ stringLength c cs < cs.length := followed.imp_right fun h => by
      by_contra short
      exact h (List.drop_eq_nil_of_le (by omega))
    rw [classify_quote quote, stringLength_parted c cs closed, List.length_take,
      Nat.min_eq_left (stringLength_le c cs)]
  | unsigned start =>
    obtain ⟨n, hn⟩ := Nat.exists_eq_add_one_of_ne_zero (numberLength_pos start).ne'
    have again := startsUnsigned_take start rest
    have length := numberLength_parted parted start
    rw [hn, List.take_succ_cons, List.cons_append] at again length
    have short := numberLength_le (c :: cs)
    rw [hn, List.length_cons] at short
    rw [hn, Nat.add_sub_cancel, classify_unsigned again, length, Nat.add_sub_cancel,
      List.length_take, Nat.min_eq_left (by omega)]
  | signed sign start =>
    cases cs with
    | nil => cases start
    | cons d ds =>
      rw [classify_signed sign (startsUnsigned_take start rest), numberLength_parted parted start,
        List.length_take, Nat.min_eq_left (numberLength_le _)]
  | identifier start =>
    have stop : ∀ b ∈ rest.head?, isIdentifierPart b = false := fun b hb =>
      (neutral_of_isBlank (parted b hb)).part
    rw [classify_identifier start, runLength_stop cs stop, List.length_take,
      Nat.min_eq_left (runLength_le _ cs)]
  | punctuation mark _ listed same =>
    rw [same, List.take_zero, List.nil_append, classify_mark listed parted]
    rfl

/-- Blanks in front of a text give no lexemes. -/
theorem lexemes_blanks {gap : Text} (blank : ∀ b ∈ gap, b.isBlank = true) (rest : Text) :
    (segments (gap ++ rest)).filterMap lexeme? = (segments rest).filterMap lexeme? := by
  induction gap with
  | nil => rfl
  | cons b gap ih =>
    have cut : classify b (gap ++ rest) = (.blank, 0) := by
      rw [classify, if_pos (blank b List.mem_cons_self)]
    rw [List.cons_append, segments, cut]
    exact ih fun c hc => blank c (List.mem_cons_of_mem b hc)

end Segment

/-! ### Texts with other blanks -/

/-- Texts written one behind the other, with blanks between neighbours. -/
inductive Text.Respaced : List Text → Text → Prop
  | none : Respaced [] []
  | one (t : Text) : Respaced [t] t
  | more (t : Text) {gap u : Text} {us : List Text} {rest : Text} (ne : gap ≠ [])
      (blank : ∀ b ∈ gap, b.isBlank = true) (tail : Respaced (u :: us) rest) :
      Respaced (t :: u :: us) (t ++ (gap ++ rest))

namespace Lexeme

/-- A lexeme is cut off whole in front of a text. -/
def CutBefore (l : Lexeme) (rest : Text) : Prop :=
  ∃ c cs, l.text = c :: cs ∧ Segment.classify c (cs ++ rest) = (.token l.kind, cs.length)

/-- Lexemes that are each cut off whole in front of blanks; the last one need only be so at
the end of a text. -/
inductive Separate : List Lexeme → Prop
  | none : Separate []
  | one {l : Lexeme} (last : l.CutBefore []) : Separate [l]
  | more {l m : Lexeme} {ms : List Lexeme}
      (here : ∀ rest : Text, rest.Parted → l.CutBefore rest) (tail : Separate (m :: ms)) :
      Separate (l :: m :: ms)

theorem CutBefore.segments {l : Lexeme} {rest : Text} (h : l.CutBefore rest) :
    Segment.segments (l.text ++ rest) = ⟨.token l.kind, l.text⟩ :: Segment.segments rest := by
  obtain ⟨c, cs, text, cut⟩ := h
  rw [text, List.cons_append, Segment.segments, cut]
  simp only [List.take_left, List.drop_left]

/-- **Separate lexemes are lexed back**, whatever blanks are between them. -/
theorem Separate.lexemes_respaced {ls : List Lexeme} (h : Separate ls) {t : Text}
    (spaced : Text.Respaced (ls.map (·.text)) t) :
    (Segment.segments t).filterMap Segment.lexeme? = ls := by
  induction h generalizing t with
  | none =>
    cases spaced
    rw [Segment.segments]
    rfl
  | @one l last =>
    cases spaced
    have alone := last.segments
    rw [List.append_nil, Segment.segments] at alone
    exact (congrArg (List.filterMap Segment.lexeme?) alone).trans rfl
  | @more l m ms here tail ih =>
    cases spaced with
    | @more _ gap _ _ rest ne blank tail =>
      obtain ⟨b, bs, rfl⟩ := List.exists_cons_of_ne_nil ne
      have parted : Text.Parted (b :: bs ++ rest) := by
        rintro c ⟨⟩
        exact blank b List.mem_cons_self
      rw [(here _ parted).segments, List.filterMap_cons, Segment.lexemes_blanks blank, ih tail]
      rfl

end Lexeme

/-- The lexemes of a text are separate: a token with another one behind it does not reach
to the end of the text. -/
theorem Segment.separate_lexemes (t : Text) :
    Lexeme.Separate ((segments t).filterMap lexeme?) := by
  fun_induction segments t with
  | case1 => exact .none
  | case2 c cs shape more cut ih =>
    rw [List.filterMap_cons]
    split
    · exact ih
    · next l found =>
      obtain ⟨kind, rfl, rfl⟩ : ∃ kind, shape = .token kind ∧ l = ⟨kind, c :: cs.take more⟩ := by
        unfold lexeme? at found
        split at found
        · next kind hkind => exact ⟨kind, hkind, (Option.some.inj found).symm⟩
        · cases found
      cases behind : (segments (cs.drop more)).filterMap lexeme? with
      | nil =>
        exact .one ⟨c, _, rfl, classify_parted cut Text.parted_nil (Or.inl rfl)⟩
      | cons m ms =>
        rw [behind] at ih
        refine .more (fun rest parted => ⟨c, _, rfl, classify_parted cut parted (Or.inr ?_)⟩) ih
        intro empty
        rw [empty, segments] at behind
        cases behind

/-- **The tokens of a text do not depend on what stood between them**: written with any
blanks between neighbours they are the tokens of the new text. -/
theorem TokenStream.lexemes_respaced {t t' : Text}
    (respaced : Text.Respaced ((ofText t).tokens.map (·.text)) t') :
    (ofText t').tokens.map Token.lexeme = (ofText t).tokens.map Token.lexeme := by
  have texts : (ofText t).tokens.map (·.text) =
      ((Segment.segments t).filterMap Segment.lexeme?).map (·.text) := by
    rw [← map_lexeme_ofText, List.map_map]
    rfl
  rw [texts] at respaced
  rw [map_lexeme_ofText, map_lexeme_ofText]
  exact (Segment.separate_lexemes t).lexemes_respaced respaced

end ProtoAtlas
