/-
# Lexemes with blanks between them

Most lexemes run on if a letter, a digit or a point follows, but none runs into a
blank.  A lexeme is *separable* if it is cut off whole in front of a blank and at
the end of a text: identifiers, punctuation, and the literals of
`Proofs.Literal.Written` are.

Separable lexemes written with single blanks between them are lexed back exactly
(`lexemes_spaced`), and because there is no comment between them every token is
bare: it carries no comment (`bare_spaced`).
-/

import Mathlib.Tactic.NormNum
import ProtoAtlas.Proofs.Literal.Written

namespace ProtoAtlas

/-- Nothing, or a text that starts with a blank. -/
def Text.Apart (t : Text) : Prop :=
  t = [] ∨ ∃ rest, t = CodePoint.ofChar ' ' :: rest

/-- A lexeme that is cut off whole at the end of a text and in front of a blank. -/
def Lexeme.Separable (l : Lexeme) : Prop :=
  ∃ c cs, l.text = c :: cs ∧
    ∀ rest, Text.Apart rest → Segment.classify c (cs ++ rest) = (.token l.kind, cs.length)

/-- The texts of lexemes with single blanks between them. -/
def Lexeme.spaced (ls : List Lexeme) : Text :=
  Text.join " " (ls.map (·.text))

/-! ### Cutting a spaced text -/

namespace Segment

theorem segments_apart {l : Lexeme} (h : l.Separable) {rest : Text} (apart : rest.Apart) :
    segments (l.text ++ rest) = ⟨.token l.kind, l.text⟩ :: segments rest := by
  obtain ⟨c, cs, text, cut⟩ := h
  rw [text, List.cons_append, segments, cut rest apart]
  simp only [List.take_left, List.drop_left]

theorem segments_blank (rest : Text) :
    segments (CodePoint.ofChar ' ' :: rest) =
      ⟨.blank, [CodePoint.ofChar ' ']⟩ :: segments rest := by
  have cut : classify (CodePoint.ofChar ' ') rest = (.blank, 0) := by
    rw [classify, if_pos (by decide)]
  rw [segments, cut]
  rfl

/-- The segments of a spaced text are the lexemes and the blanks. -/
theorem segments_spaced {ls : List Lexeme} (h : ∀ l ∈ ls, l.Separable) :
    (segments (Lexeme.spaced ls)).filterMap lexeme? = ls ∧
      ∀ s ∈ segments (Lexeme.spaced ls), s.comment? = none := by
  induction ls with
  | nil =>
    rw [Lexeme.spaced, List.map_nil, Text.join, List.intercalate_nil, segments]
    exact ⟨rfl, by simp⟩
  | cons l rest ih =>
    obtain ⟨lexemes, silent⟩ := ih fun l' hl => h l' (List.mem_cons_of_mem l hl)
    have here := h l List.mem_cons_self
    cases rest with
    | nil =>
      have text : Lexeme.spaced [l] = l.text ++ [] := by simp [Lexeme.spaced, Text.join]
      rw [text, segments_apart here (Or.inl rfl), segments]
      exact ⟨rfl, by simp [comment?]⟩
    | cons l' rest =>
      have text : Lexeme.spaced (l :: l' :: rest) =
          l.text ++ CodePoint.ofChar ' ' :: Lexeme.spaced (l' :: rest) := by
        simp only [Lexeme.spaced, Text.join, List.map_cons, List.intercalate, List.intersperse,
          List.flatten_cons]
        rfl
      rw [text, segments_apart here (Or.inr ⟨_, rfl⟩), segments_blank]
      constructor
      · rw [List.filterMap_cons, List.filterMap_cons]
        exact congrArg (l :: ·) lexemes
      · intro s hs
        rw [List.mem_cons, List.mem_cons] at hs
        rcases hs with rfl | rfl | hs
        · rfl
        · rfl
        · exact silent s hs

end Segment

/-! ### Tokens without comments -/

/-- A token that carries no comment. -/
structure Token.Bare (t : Token) : Prop where
  leading : t.leading = none
  trailing : t.trailing = none

namespace TokenStream

theorem bare_attach {ps : List PlacedSegment} (silent : ∀ p ∈ ps, p.segment.comment? = none)
    (near : Bool) (last : Option Token) (hlast : ∀ t ∈ last, t.Bare) :
    (∀ t ∈ (attach near last [] ps).1, t.Bare) ∧ (attach near last [] ps).2 = [] := by
  induction ps generalizing near last with
  | nil => exact ⟨fun t ht => hlast t (Option.mem_toList.1 ht), rfl⟩
  | cons p rest ih =>
    have others : ∀ q ∈ rest, q.segment.comment? = none :=
      fun q hq => silent q (List.mem_cons_of_mem p hq)
    unfold attach
    split
    · next kind shape =>
      obtain ⟨bare, left⟩ := ih others true (some ⟨kind, p.segment.text, p.span,
        Token.joinLeading [], none⟩) (by rintro t ⟨⟩; exact ⟨rfl, rfl⟩)
      refine ⟨fun t ht => ?_, left⟩
      rcases List.mem_append.1 ht with ht | ht
      · exact hlast t (Option.mem_toList.1 ht)
      · exact bare t ht
    · rw [silent p List.mem_cons_self]
      exact ih others _ last hlast

/-- **A spaced text is lexed back.** -/
theorem lexemes_spaced {ls : List Lexeme} (h : ∀ l ∈ ls, l.Separable) :
    (ofText (Lexeme.spaced ls)).tokens.map Token.lexeme = ls := by
  rw [map_lexeme_ofText]
  exact (Segment.segments_spaced h).1

/-- A spaced text has no comments. -/
theorem bare_spaced {ls : List Lexeme} (h : ∀ l ∈ ls, l.Separable) :
    (∀ t ∈ (ofText (Lexeme.spaced ls)).tokens, t.Bare) ∧
      (ofText (Lexeme.spaced ls)).finish.Bare := by
  have silent : ∀ p ∈ place Position.zero (Segment.segments (Lexeme.spaced ls)),
      p.segment.comment? = none := by
    intro p hp
    refine (Segment.segments_spaced h).2 _ ?_
    have mem := List.mem_map_of_mem (f := PlacedSegment.segment) hp
    rwa [map_segment_place] at mem
  obtain ⟨bare, left⟩ := bare_attach silent false none (by simp)
  refine ⟨bare, ?_, rfl⟩
  change Token.joinLeading (attach false none [] (place Position.zero _)).2 = none
  rw [left]
  rfl

end TokenStream

/-! ### Separable lexemes -/

namespace Segment

theorem runLength_apart {p : CodePoint → Bool} {t rest : Text} (all : ∀ c ∈ t, p c = true)
    (blank : p (CodePoint.ofChar ' ') = false) (apart : rest.Apart) :
    runLength p (t ++ rest) = t.length := by
  rw [runLength, List.takeWhile_append_of_pos all]
  rcases apart with rfl | ⟨rest, rfl⟩
  · simp
  · rw [List.takeWhile_cons_of_neg (by simp [blank]), List.append_nil]

theorem startsUnsigned_apart {rest : Text} (apart : rest.Apart) : startsUnsigned rest = false := by
  rcases apart with rfl | ⟨rest, rfl⟩
  · rfl
  · simp only [startsUnsigned, show (CodePoint.ofChar ' ').isDigit = false by decide,
      show CodePoint.ofChar ' ' ≠ CodePoint.ofChar '.' by decide, decide_false, Bool.false_and,
      Bool.or_self]

/-- A letter or an underscore starts only identifiers. -/
theorem val_of_isIdentifierStart {c : CodePoint} (h : isIdentifierStart c = true) :
    97 ≤ c.val ∧ c.val ≤ 122 ∨ 65 ≤ c.val ∧ c.val ≤ 90 ∨ c.val = 95 := by
  simp only [isIdentifierStart, CodePoint.isLetter, CodePoint.between, Bool.or_eq_true,
    Bool.and_eq_true, decide_eq_true_eq] at h
  rcases h with (h | h) | rfl
  · exact Or.inl h
  · exact Or.inr (Or.inl h)
  · exact Or.inr (Or.inr rfl)

theorem classify_identifier {c : CodePoint} (h : isIdentifierStart c = true) (cs : Text) :
    classify c cs = (.token .identifier, runLength isIdentifierPart cs) := by
  have val := val_of_isIdentifierStart h
  have ne : ∀ m : Char, m.toNat < 65 → c ≠ CodePoint.ofChar m := by
    rintro m hm rfl
    change (97 ≤ m.toNat ∧ _ ∨ 65 ≤ m.toNat ∧ _ ∨ m.toNat = 95) at val
    omega
  have blank : c.isBlank = false := by
    have outside : ∀ range ∈ CodePoint.blankRanges, range.2 < 65 ∨ 122 < range.1 := by decide
    rw [Bool.eq_false_iff, CodePoint.isBlank, ne_eq, List.any_eq_true]
    rintro ⟨range, listed, inside⟩
    rw [Bool.and_eq_true, decide_eq_true_eq, decide_eq_true_eq] at inside
    have := outside range listed
    omega
  have quote : isQuote c = false := by
    rw [isQuote, decide_eq_false (ne '"' (by decide)), decide_eq_false (ne '\'' (by decide))]
    rfl
  have digit : c.isDigit = false := by
    rw [Bool.eq_false_iff]
    intro digit
    have := CodePoint.val_of_isDigit digit
    omega
  have number : startsUnsigned (c :: cs) = false := by
    rw [startsUnsigned, digit, decide_eq_false (ne '.' (by decide))]
    rfl
  have sign : isSign c = false := by
    rw [isSign, decide_eq_false (ne '+' (by decide)), decide_eq_false (ne '-' (by decide))]
    rfl
  simp only [classify, blank, ne '/' (by decide), quote, number, sign, h, false_and, Bool.false_and,
    Bool.false_eq_true, if_false, if_true]

/-- A digit starts only numbers. -/
theorem classify_digit {d : Nat} (hd : d < 10) (cs : Text) :
    classify (CodePoint.ofDigit d) cs =
      (.token .number, numberLength (CodePoint.ofDigit d :: cs) - 1) := by
  have facts : ∀ d < 10, (CodePoint.ofDigit d).isBlank = false ∧
      CodePoint.ofDigit d ≠ CodePoint.ofChar '/' ∧ isQuote (CodePoint.ofDigit d) = false := by
    decide
  obtain ⟨blank, slash, quote⟩ := facts d hd
  have number : startsUnsigned (CodePoint.ofDigit d :: cs) = true := by
    rw [startsUnsigned, (Radix.decimal_facts hd).2.1]
    rfl
  simp only [classify, blank, slash, quote, number, false_and, Bool.false_eq_true, if_false,
    if_true]

/-- A minus sign in front of a digit starts a number. -/
theorem classify_minus {d : Nat} (hd : d < 10) (cs : Text) :
    classify (CodePoint.ofChar '-') (CodePoint.ofDigit d :: cs) =
      (.token .number, numberLength (CodePoint.ofDigit d :: cs)) := by
  have number : startsUnsigned (CodePoint.ofDigit d :: cs) = true := by
    rw [startsUnsigned, (Radix.decimal_facts hd).2.1]
    rfl
  have unsigned : startsUnsigned (CodePoint.ofChar '-' :: CodePoint.ofDigit d :: cs) = false := by
    rw [startsUnsigned, show (CodePoint.ofChar '-').isDigit = false by decide,
      decide_eq_false (show CodePoint.ofChar '-' ≠ CodePoint.ofChar '.' by decide)]
    rfl
  have others : (CodePoint.ofChar '-').isBlank = false ∧
      CodePoint.ofChar '-' ≠ CodePoint.ofChar '/' ∧ isQuote (CodePoint.ofChar '-') = false ∧
      isSign (CodePoint.ofChar '-') = true := by decide
  obtain ⟨blank, slash, quote, sign⟩ := others
  simp only [classify, blank, slash, quote, number, unsigned, sign, false_and, Bool.and_self,
    Bool.false_eq_true, if_false, if_true]

end Segment

namespace Lexeme

theorem separable_identifier {t : Text} (h : t.isIdentifier = true) :
    (⟨.identifier, t⟩ : Lexeme).Separable := by
  cases t with
  | nil => cases h
  | cons c cs =>
    rw [Text.isIdentifier, Bool.and_eq_true, List.all_eq_true] at h
    refine ⟨c, cs, rfl, fun rest apart => ?_⟩
    rw [Segment.classify_identifier h.1, Segment.runLength_apart h.2 (by decide) apart]

theorem separable_mark {m : Char} {kind : TokenKind} (h : (m, kind) ∈ Segment.marks) :
    (⟨kind, [CodePoint.ofChar m]⟩ : Lexeme).Separable := by
  refine ⟨CodePoint.ofChar m, [], rfl, fun rest apart => ?_⟩
  have facts : ∀ mark ∈ Segment.marks, (CodePoint.ofChar mark.1).isBlank = false ∧
      CodePoint.ofChar mark.1 ≠ CodePoint.ofChar '/' ∧
      Segment.isQuote (CodePoint.ofChar mark.1) = false ∧
      (CodePoint.ofChar mark.1).isDigit = false ∧
      Segment.isIdentifierStart (CodePoint.ofChar mark.1) = false ∧
      Segment.punctuation? (CodePoint.ofChar mark.1) = some mark.2 := by decide
  obtain ⟨blank, slash, quote, digit, letter, punctuation⟩ := facts (m, kind) h
  -- A point or a sign would start a number, but a blank is no digit.
  have number : Segment.startsUnsigned (CodePoint.ofChar m :: rest) = false := by
    rw [Segment.startsUnsigned, digit, Bool.false_or, Bool.and_eq_false_iff]
    right
    rcases apart with rfl | ⟨rest, rfl⟩
    · rfl
    · show (CodePoint.ofChar ' ').isDigit = false
      decide
  simp only [Segment.classify, List.nil_append, blank, slash, quote, number,
    Segment.startsUnsigned_apart apart, letter, punctuation, false_and, Bool.and_false,
    Bool.false_eq_true, if_false, List.length_nil]

/-! ### Separable literals -/

/-- A number is separable if its characters without the sign are counted right. -/
theorem separable_number {sign body : Text} {d : Nat} {cs : Text} (hd : d < 10)
    (head : body = CodePoint.ofDigit d :: cs)
    (hsign : sign = [] ∨ sign = [CodePoint.ofChar '-'])
    (length : ∀ rest, Text.Apart rest → Segment.numberLength (body ++ rest) = body.length) :
    (⟨.number, sign ++ body⟩ : Lexeme).Separable := by
  subst head
  rcases hsign with rfl | rfl
  · refine ⟨CodePoint.ofDigit d, cs, rfl, fun rest apart => ?_⟩
    have counted := length rest apart
    rw [List.cons_append] at counted
    rw [Segment.classify_digit hd, counted]
    rfl
  · refine ⟨CodePoint.ofChar '-', CodePoint.ofDigit d :: cs, rfl, fun rest apart => ?_⟩
    have counted := length rest apart
    rw [List.cons_append] at counted ⊢
    rw [Segment.classify_minus hd, counted]

end Lexeme

namespace Segment

theorem exponentLength_apart {rest : Text} (apart : rest.Apart) : exponentLength rest = 0 := by
  rcases apart with rfl | ⟨rest, rfl⟩
  · rfl
  · rw [exponentLength.eq_def]
    exact if_neg (by decide)

/-- Digits that no point and no marker follow are counted by their run. -/
theorem decimalLength_digits {ds : List Nat} (digit : ∀ d ∈ ds, d < 10) {rest : Text}
    (stop : rest = [] ∨ ∃ c cs, rest = c :: cs ∧ c.isDigit = false ∧ c ≠ CodePoint.ofChar '.') :
    decimalLength (ds.map CodePoint.ofDigit ++ rest) = ds.length + exponentLength rest := by
  have run : ∀ c ∈ ds.map CodePoint.ofDigit, (c.isDigit || c = CodePoint.ofChar '.') = true := by
    intro c hc
    obtain ⟨d, hd, rfl⟩ := List.mem_map.1 hc
    rw [(Radix.decimal_facts (digit d hd)).2.1]
    rfl
  have length : runLength (fun c => c.isDigit || c = CodePoint.ofChar '.')
      (ds.map CodePoint.ofDigit ++ rest) = (ds.map CodePoint.ofDigit).length := by
    rw [runLength, List.takeWhile_append_of_pos run]
    rcases stop with rfl | ⟨c, cs, rfl, hdigit, hpoint⟩
    · simp
    · rw [List.takeWhile_cons_of_neg (by simp [hdigit, hpoint]), List.append_nil]
  simp only [decimalLength, length]
  rw [List.drop_left, List.length_map]

/-- Without the marker of a hexadecimal number a number is a decimal one. -/
theorem numberLength_eq_decimalLength {c : CodePoint} {cs : Text}
    (h : ∀ mark ∈ cs.head?, mark.toLower ≠ CodePoint.ofChar 'x') :
    numberLength (c :: cs) = decimalLength (c :: cs) := by
  cases cs with
  | nil => rfl
  | cons mark rest =>
    have unmarked := h mark rfl
    rw [numberLength, if_neg]
    rintro ⟨-, rfl | rfl⟩
    · exact unmarked (by decide)
    · exact unmarked (by decide)

end Segment

namespace Lexeme

theorem apart_stop {rest : Text} (apart : rest.Apart) :
    rest = [] ∨ ∃ c cs, rest = c :: cs ∧ c.isDigit = false ∧ c ≠ CodePoint.ofChar '.' := by
  rcases apart with rfl | ⟨rest, rfl⟩
  · exact Or.inl rfl
  · exact Or.inr ⟨_, _, rfl, by decide, by decide⟩

/-- After digits comes no marker if none starts what follows them. -/
theorem head?_digits {ds : List Nat} (digit : ∀ d ∈ ds, d < 10) {rest : Text}
    (h : ∀ mark ∈ rest.head?, mark.toLower ≠ CodePoint.ofChar 'x') :
    ∀ mark ∈ (ds.map CodePoint.ofDigit ++ rest).head?, mark.toLower ≠ CodePoint.ofChar 'x' := by
  cases ds with
  | nil => exact h
  | cons d ds =>
    rintro mark ⟨⟩
    have := digit d List.mem_cons_self
    exact (Radix.digit_facts (show d < 16 by omega)).2.2.2.1

theorem separable_integer (n : Int) : (⟨.number, Literal.ofInt n⟩ : Lexeme).Separable := by
  have split : Literal.ofInt n = (if n < 0 then [CodePoint.ofChar '-'] else []) ++
      Literal.ofNat n.natAbs := by
    unfold Literal.ofInt
    split
    · rw [List.singleton_append]
    · rw [List.nil_append]
  have sign : (if n < 0 then [CodePoint.ofChar '-'] else []) = ([] : Text) ∨
      (if n < 0 then [CodePoint.ofChar '-'] else []) = [CodePoint.ofChar '-'] := by
    split
    · exact Or.inr rfl
    · exact Or.inl rfl
  obtain ⟨first, cs, head, hfirst⟩ := Literal.ofNat_head n.natAbs
  rw [split]
  refine separable_number hfirst head sign fun rest apart => ?_
  have blank : ∀ mark ∈ rest.head?, mark.toLower ≠ CodePoint.ofChar 'x' := by
    rcases apart with rfl | ⟨rest, rfl⟩
    · simp
    · rintro mark ⟨⟩
      decide
  rcases Literal.ofNat_cases n.natAbs with ⟨d, ds, written, digit, -⟩ | ⟨d, ds, written, digit, -⟩
  · have tail : ∀ e ∈ ds, e < 10 := fun e he => digit e (List.mem_cons_of_mem d he)
    rw [written, List.map_cons, List.cons_append,
      Segment.numberLength_eq_decimalLength (head?_digits tail blank), ← List.cons_append,
      ← List.map_cons, Segment.decimalLength_digits digit (apart_stop apart),
      Segment.exponentLength_apart apart, List.length_map, Nat.add_zero]
  · have hex : ∀ c ∈ (d :: ds).map CodePoint.ofDigit, c.isHexDigit = true := by
      intro c hc
      obtain ⟨e, he, rfl⟩ := List.mem_map.1 hc
      exact (Radix.digit_facts (digit e he)).2.2.2.2
    have marker : ("0x" : Text) = [CodePoint.ofChar '0', CodePoint.ofChar 'x'] := rfl
    rw [written, marker, List.append_assoc, List.cons_append, List.cons_append, List.nil_append,
      Segment.numberLength, if_pos ⟨rfl, Or.inl rfl⟩,
      Segment.runLength_apart hex (by decide) apart, List.length_append]
    rfl

theorem separable_real (x : Binary64) : (⟨.number, Literal.ofReal x⟩ : Lexeme).Separable := by
  obtain ⟨ds, es, hds, hes, digit, digit', -, -, written⟩ := Literal.ofReal_eq x
  obtain ⟨d, ds, rfl⟩ := List.exists_cons_of_ne_nil hds
  obtain ⟨e, es, rfl⟩ := List.exists_cons_of_ne_nil hes
  have sign : (if x.isNegative then [CodePoint.ofChar '-'] else []) = ([] : Text) ∨
      (if x.isNegative then [CodePoint.ofChar '-'] else []) = [CodePoint.ofChar '-'] := by
    split
    · exact Or.inr rfl
    · exact Or.inl rfl
  rw [written]
  refine separable_number (digit d List.mem_cons_self) rfl sign fun rest apart => ?_
  have others : ∀ e ∈ ds, e < 10 := fun e he => digit e (List.mem_cons_of_mem d he)
  have exponent : Segment.exponentLength (CodePoint.ofChar 'e' :: CodePoint.ofChar '-' ::
      ((e :: es).map CodePoint.ofDigit ++ rest)) = 2 + (e :: es).length := by
    have run : ∀ c ∈ (e :: es).map CodePoint.ofDigit, c.isDigit = true := by
      intro c hc
      obtain ⟨e', he, rfl⟩ := List.mem_map.1 hc
      exact (Radix.decimal_facts (digit' e' he)).2.1
    rw [Segment.exponentLength, if_pos (Or.inl rfl), if_pos (by decide),
      Segment.runLength_apart run (by decide) apart, List.length_map]
  generalize htail : CodePoint.ofChar 'e' :: CodePoint.ofChar '-' ::
    ((e :: es).map CodePoint.ofDigit ++ rest) = tail at exponent
  have marked : ∀ mark ∈ tail.head?, mark.toLower ≠ CodePoint.ofChar 'x' := by
    rw [← htail]
    rintro mark ⟨⟩
    decide
  have stop : ∃ c cs, tail = c :: cs ∧ c.isDigit = false ∧ c ≠ CodePoint.ofChar '.' :=
    ⟨_, _, htail.symm, by decide, by decide⟩
  calc Segment.numberLength (((d :: ds).map CodePoint.ofDigit ++ CodePoint.ofChar 'e' ::
        CodePoint.ofChar '-' :: (e :: es).map CodePoint.ofDigit) ++ rest)
    _ = Segment.numberLength (CodePoint.ofDigit d :: (ds.map CodePoint.ofDigit ++ tail)) := by
      rw [← htail, List.append_assoc]
      rfl
    _ = Segment.decimalLength ((d :: ds).map CodePoint.ofDigit ++ tail) :=
      Segment.numberLength_eq_decimalLength (head?_digits others marked)
    _ = (d :: ds).length + (2 + (e :: es).length) := by
      rw [Segment.decimalLength_digits digit (Or.inr stop), exponent]
    _ = _ := by
      simp only [List.length_append, List.length_map, List.length_cons]
      omega

end Lexeme

namespace Segment

/-- The string of an escaped text ends at the quote behind it. -/
theorem stringLength_escaped (t rest : Text) :
    stringLength (CodePoint.ofChar '"')
      (t.flatMap Literal.escapeChar ++ CodePoint.ofChar '"' :: rest) =
        (t.flatMap Literal.escapeChar).length + 1 := by
  induction t with
  | nil =>
    rw [List.flatMap_nil, List.nil_append, List.length_nil]
    cases rest with
    | nil => rfl
    | cons d rest => rw [stringLength, if_pos rfl]
  | cons c cs ih =>
    rw [List.flatMap_cons, List.append_assoc]
    rcases Literal.escapeChar_cases c with ⟨e, written, -⟩ | ⟨written, plain, unquoted⟩
    · rw [written, List.cons_append, List.cons_append, List.nil_append, stringLength,
        if_neg (by decide), if_pos rfl, ih]
      simp only [List.cons_append, List.nil_append, List.length_cons]
      omega
    · obtain ⟨d, ds, next⟩ : ∃ d ds, cs.flatMap Literal.escapeChar ++
          CodePoint.ofChar '"' :: rest = d :: ds :=
        List.exists_cons_of_ne_nil (by simp)
      rw [next] at ih
      rw [written, next, List.cons_append, List.nil_append, stringLength, if_neg unquoted,
        if_neg plain, ih, List.cons_append, List.nil_append, List.length_cons]
      omega

end Segment

namespace Lexeme

theorem separable_string (t : Text) : (⟨.string, Literal.quote t⟩ : Lexeme).Separable := by
  refine ⟨CodePoint.ofChar '"', t.flatMap Literal.escapeChar ++ [CodePoint.ofChar '"'], rfl,
    fun rest _ => ?_⟩
  rw [List.append_assoc, List.singleton_append, List.length_append]
  have length := Segment.stringLength_escaped t rest
  rw [Segment.classify, if_neg (by decide), if_neg (fun h => absurd h.1 (by decide)),
    if_neg (fun h => absurd h.1 (by decide)), if_pos (by decide), length]
  rfl

end Lexeme

end ProtoAtlas
