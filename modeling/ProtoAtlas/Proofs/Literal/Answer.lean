/-
# Number literals that always have an answer

`Literal.integer` has no answer for the empty text, and `Literal.real` none for an
infinity with two signs and for an integer beyond the largest real number.  No
number token runs into this, with or without a sign in front of it:

* a number token is not empty, and after its signs comes a digit or a point, so
  it is never a word such as `inf` (`real_answered`);
* a literal with a point or an exponent is no integer literal, because neither the
  point nor the letter `e` is a digit below base sixteen and a hexadecimal marker
  is excluded (`integer_eq_none_of_isRealLiteral`).
-/

import Mathlib.Data.List.TakeWhile
import Mathlib.Tactic.SplitIfs
import ProtoAtlas.Grammar.Option
import ProtoAtlas.Proofs.Source.Lexeme

namespace ProtoAtlas

theorem CodePoint.val_of_isDigit {c : CodePoint} (h : c.isDigit = true) :
    48 ≤ c.val ∧ c.val ≤ 57 ∨ 128 ≤ c.val := by
  rw [CodePoint.isDigit, Bool.or_eq_true, Bool.and_eq_true, decide_eq_true_eq,
    CodePoint.isAsciiDigit, CodePoint.between, Bool.and_eq_true, decide_eq_true_eq,
    decide_eq_true_eq] at h
  exact h.imp id And.left

theorem Text.mem_strip_or {p : CodePoint → Bool} {t : Text} {c : CodePoint} (h : c ∈ t) :
    p c = true ∨ c ∈ t.strip p := by
  have drop : ∀ u : Text, c ∈ u → p c = true ∨ c ∈ u.dropWhile p := by
    intro u hu
    rw [← List.takeWhile_append_dropWhile (p := p) (l := u), List.mem_append] at hu
    exact hu.imp_left List.mem_takeWhile_imp
  rcases drop t h with hp | hd
  · exact Or.inl hp
  · rw [Text.strip, List.mem_reverse]
    exact drop _ (List.mem_reverse.2 hd)

/-! ### What an integer text is made of -/

namespace Radix

/-- Digits of a run are digits of the base or underscores. -/
theorem digit_of_mem_digitRun {base : Nat} {t : Text} {digits : List Nat}
    (h : digitRun? base t = some digits) {c : CodePoint} (hc : c ∈ t) :
    c = CodePoint.ofChar '_' ∨ (c.digitIn? base).isSome = true := by
  fun_induction digitRun? base t generalizing digits with
  | case1 => cases hc
  | case2 d =>
    rw [List.mem_singleton.1 hc]
    obtain ⟨n, hn, -⟩ := Option.map_eq_some_iff.1 h
    simp [hn]
  | case3 d u cs none => cases h
  | case4 d cs n hn ih =>
    obtain ⟨rest, hrest, -⟩ := Option.map_eq_some_iff.1 h
    rcases List.mem_cons.1 hc with rfl | hc
    · simp [hn]
    · rcases List.mem_cons.1 hc with rfl | hc
      · exact Or.inl rfl
      · exact ih hrest hc
  | case5 d u cs n hn _ ih =>
    obtain ⟨rest, hrest, -⟩ := Option.map_eq_some_iff.1 h
    rcases List.mem_cons.1 hc with rfl | hc
    · simp [hn]
    · exact ih hrest hc

/-- A sign or a character of the text without its sign. -/
theorem mem_splitSign_or {t : Text} {c : CodePoint} (h : c ∈ t) :
    Segment.isSign c = true ∨ c ∈ (splitSign t).2 := by
  cases t with
  | nil => cases h
  | cons d ds =>
    rw [splitSign]
    split_ifs with minus plus
    · exact (List.mem_cons.1 h).imp_left fun e => by rw [e, minus]; decide
    · exact (List.mem_cons.1 h).imp_left fun e => by rw [e, plus]; decide
    · exact Or.inr h

/-- A character of the marker or a character of the text without its marker. -/
theorem mem_dropMarker_or {r : Radix} {t : Text} {c : CodePoint} (h : c ∈ t) :
    c = CodePoint.ofChar '0' ∨ c = CodePoint.ofChar '_' ∨
      (∃ letter, r.marker? = some letter ∧ c.toLower = CodePoint.ofChar letter) ∨
      c ∈ r.dropMarker t := by
  unfold dropMarker
  split
  · next letter zero mark rest hr =>
    split_ifs with marked
    · rcases List.mem_cons.1 h with rfl | h
      · exact Or.inl marked.1
      · rcases List.mem_cons.1 h with rfl | h
        · exact Or.inr (Or.inr (Or.inl ⟨letter, hr, marked.2⟩))
        · cases rest with
          | nil => cases h
          | cons u digits =>
            dsimp only
            split_ifs with underscore
            · rcases List.mem_cons.1 h with rfl | h
              · exact Or.inr (Or.inl underscore)
              · exact Or.inr (Or.inr (Or.inr h))
            · exact Or.inr (Or.inr (Or.inr h))
    · exact Or.inr (Or.inr (Or.inr h))
  · exact Or.inr (Or.inr (Or.inr h))

/-- A code point that no integer text of a base contains. -/
structure Foreign (r : Radix) (c : CodePoint) : Prop where
  padding : c.isNumberPadding = false
  sign : Segment.isSign c = false
  underscore : c ≠ CodePoint.ofChar '_'
  zero : c ≠ CodePoint.ofChar '0'
  digit : c.digitIn? r.base = none
  marker : ∀ letter, r.marker? = some letter → c.toLower ≠ CodePoint.ofChar letter

/-- **A text with a foreign character is no integer of the base.** -/
theorem read?_eq_none {r : Radix} {t : Text} {c : CodePoint} (hc : c ∈ t) (foreign : r.Foreign c) :
    r.read? t = none := by
  have inBody : c ∈ r.dropMarker (splitSign (t.strip CodePoint.isNumberPadding)).2 := by
    have stripped := (Text.mem_strip_or (p := CodePoint.isNumberPadding) hc).resolve_left
      (by simp [foreign.padding])
    have unsigned := (mem_splitSign_or stripped).resolve_left (by simp [foreign.sign])
    rcases mem_dropMarker_or (r := r) unsigned with h | h | ⟨letter, hr, h⟩ | h
    · exact absurd h foreign.zero
    · exact absurd h foreign.underscore
    · exact absurd h (foreign.marker letter hr)
    · exact h
  have noRun : digitRun? r.base
      (r.dropMarker (splitSign (t.strip CodePoint.isNumberPadding)).2) = none := by
    rw [Option.eq_none_iff_forall_not_mem]
    intro digits run
    rcases digit_of_mem_digitRun run inBody with h | h
    · exact absurd h foreign.underscore
    · simp [foreign.digit] at h
  simp only [read?, noRun]

end Radix

/-! ### Real literals are no integer literals -/

/-- The characters that make a literal a real one. -/
def isRealMark (c : CodePoint) : Bool :=
  c = CodePoint.ofChar '.' || c = CodePoint.ofChar 'e' || c = CodePoint.ofChar 'E'

theorem foreign_of_isRealMark {c : CodePoint} (h : isRealMark c = true) {r : Radix}
    (hr : r ≠ .hexadecimal) : r.Foreign c := by
  have listed : c = CodePoint.ofChar '.' ∨ c = CodePoint.ofChar 'e' ∨ c = CodePoint.ofChar 'E' := by
    simpa [isRealMark, or_assoc] using h
  have digit : c.digitIn? r.base = none := by
    cases r with
    | octal => rcases listed with rfl | rfl | rfl <;> decide
    | decimal => rcases listed with rfl | rfl | rfl <;> decide
    | hexadecimal => exact absurd rfl hr
  have marker : ∀ letter, r.marker? = some letter → c.toLower ≠ CodePoint.ofChar letter := by
    intro letter found
    cases r with
    | octal =>
      cases found
      rcases listed with rfl | rfl | rfl <;> decide
    | decimal => cases found
    | hexadecimal => exact absurd rfl hr
  refine ⟨?_, ?_, ?_, ?_, digit, marker⟩ <;> rcases listed with rfl | rfl | rfl <;> decide

namespace Literal

/-- The two ways a text can go on after one sign is taken off. -/
theorem dropSigns_splitSign (t : Text) :
    dropSigns (Radix.splitSign t).2 = dropSigns t := by
  cases t with
  | nil => rfl
  | cons c cs =>
    rw [Radix.splitSign]
    split_ifs with minus plus
    · simp [dropSigns, minus]
    · simp [dropSigns, plus]
    · rfl

/-- **A real literal is no integer literal**, so its value never comes from
rounding an integer. -/
theorem integer_eq_none_of_isRealLiteral {t : Text} (h : Rule.isRealLiteral t = true) :
    integer t = .ok none := by
  simp only [Rule.isRealLiteral, Bool.and_eq_true, Bool.not_eq_true', Bool.or_eq_false_iff,
    decide_eq_false_iff_not, List.any_eq_true] at h
  obtain ⟨⟨hx, hX⟩, c, hc, mark⟩ := h
  have inBody : c ∈ (Radix.splitSign t).2 := by
    rw [← dropSigns_splitSign] at hc
    exact (List.dropWhile_suffix _).subset hc
  have notEmpty : t.isEmpty = false := by
    cases t with
    | nil => cases hc
    | cons => rfl
  rw [← dropSigns_splitSign] at hx hX
  have none : magnitude? (Radix.splitSign t).2 = none := by
    generalize (Radix.splitSign t).2 = body at hx hX inBody
    unfold magnitude?
    split
    · next zero letter rest =>
      split_ifs with isZero isHex
      · -- After a zero no sign is left, so the marker would be seen.
        exfalso
        subst isZero
        rcases isHex with rfl | rfl
        · exact hx rfl
        · exact hX rfl
      · rcases List.mem_cons.1 inBody with rfl | inRest
        · exact absurd isZero (foreign_of_isRealMark mark (r := .octal) (by decide)).zero
        · exact Radix.read?_eq_none inRest (foreign_of_isRealMark mark (by decide))
      · exact Radix.read?_eq_none inBody (foreign_of_isRealMark mark (by decide))
    · exact Radix.read?_eq_none inBody (foreign_of_isRealMark mark (by decide))
  simp [integer, notEmpty, none]

/-! ### Number tokens -/

/-- A text that starts, after signs, with a digit or a point. -/
def StartsLikeNumber (t : Text) : Prop :=
  ∃ signs c cs, t = signs ++ c :: cs ∧ (∀ s ∈ signs, Segment.isSign s = true) ∧
    (c.isDigit = true ∨ c = CodePoint.ofChar '.')

theorem integer_answered {t : Text} (h : StartsLikeNumber t) : ∃ n, integer t = .ok n := by
  obtain ⟨signs, c, cs, rfl, -, -⟩ := h
  have notEmpty : (signs ++ c :: cs).isEmpty = false := by simp
  simp [integer, notEmpty]

/-- After its signs a number does not spell a word. -/
theorem not_isSpecialWord {t : Text} (h : StartsLikeNumber t) :
    isSpecialWord (dropSigns t.lower) = false := by
  obtain ⟨signs, c, cs, rfl, hs, hc⟩ := h
  have lowerSign : ∀ s, Segment.isSign s = true → s.toLower = s := by
    intro s hs
    rw [Segment.isSign, Bool.or_eq_true, decide_eq_true_eq, decide_eq_true_eq] at hs
    rcases hs with rfl | rfl <;> rfl
  have letters : c.val = 46 ∨ 48 ≤ c.val ∧ c.val ≤ 57 ∨ 128 ≤ c.val := by
    rcases hc with digit | rfl
    · exact Or.inr (CodePoint.val_of_isDigit digit)
    · exact Or.inl rfl
  have same : c.toLower = c := by
    unfold CodePoint.toLower
    rw [dif_neg]
    intro h
    have : 65 ≤ c.val ∧ c.val ≤ 90 := h
    omega
  have drop : dropSigns (Text.lower (signs ++ c :: cs)) = c :: Text.lower cs := by
    have signs' : Text.lower signs = signs := by
      unfold Text.lower
      exact (List.map_congr_left fun s h => lowerSign s (hs s h)).trans (List.map_id' _)
    have signsDropped : ∀ s ∈ signs,
        (s = CodePoint.ofChar '+' || s = CodePoint.ofChar '-') = true := hs
    have head : (c = CodePoint.ofChar '+' || c = CodePoint.ofChar '-') = false := by
      rw [Bool.or_eq_false_iff, decide_eq_false_iff_not, decide_eq_false_iff_not]
      constructor <;> rintro rfl <;> revert letters <;> decide
    rw [Text.lower, List.map_append, List.map_cons, same]
    change dropSigns (Text.lower signs ++ c :: Text.lower cs) = _
    rw [signs', dropSigns, List.dropWhile_append_of_pos signsDropped, List.dropWhile_cons, head]
    rfl
  rw [drop]
  have first : ∀ w : Text, ∀ d, w.head? = some d → d.val ≠ c.val → c :: Text.lower cs ≠ w := by
    rintro w d hd hne rfl
    exact hne (congrArg CodePoint.val (Option.some.inj hd).symm)
  simp only [isSpecialWord, Bool.or_eq_false_iff, decide_eq_false_iff_not]
  refine ⟨⟨first _ (CodePoint.ofChar 'i') rfl ?_, first _ (CodePoint.ofChar 'i') rfl ?_⟩,
    first _ (CodePoint.ofChar 'n') rfl ?_⟩
  · change 105 ≠ c.val; omega
  · change 105 ≠ c.val; omega
  · change 110 ≠ c.val; omega

theorem real_answered {t : Text} (h : StartsLikeNumber t) (isReal : Rule.isRealLiteral t = true) :
    ∃ x, real t = .ok x := by
  unfold real
  rw [not_isSpecialWord h, integer_eq_none_of_isRealLiteral isReal]
  cases Binary64.read? t with
  | some x => exact ⟨some x, rfl⟩
  | none => exact ⟨none, rfl⟩

end Literal
end ProtoAtlas
