/-
# The text at a span

A slice of a text is what stands between two positions, found by counting lines and
characters (`Text.slice`); it knows nothing of tokens.  The place behind a beginning of a
text counts the characters of that beginning (`Text.offset_after`), so the slice at a
token is the token (`TokenStream.slice_token`).

A slice over neighbouring tokens holds what stands between them too: blanks, comments and
stray characters.  If all its tokens are identifiers and dots and the last one is an
identifier, it has the same tokens on its own (`TokenStream.lexemes_slice`).  For that
one has to know how far the segmentation looks ahead: a segment inside the slice is cut
off by what follows it there, and an identifier also by the end of the slice
(`Segment.segments_stretch`).  Numbers and signs are left out because a sign looks two
characters ahead.
-/

import ProtoAtlas.Proofs.Source.Placed
import ProtoAtlas.Proofs.Source.Spaced

namespace ProtoAtlas

/-! ### Counting lines and characters -/

/-- The character that ends a line. -/
def lineFeed : CodePoint := CodePoint.ofChar '\n'

namespace Text

/-- How many characters of a text stand in front of a position: the lines before it, each
with its line feed, and the characters before it on its own line. -/
def offset (t : Text) (p : Position) : Nat :=
  (((t.splitOn lineFeed).take p.line).flatMap (· ++ [lineFeed])).length + p.character

/-- The characters of a text at a span. -/
def slice (t : Text) (s : Span) : Text :=
  (t.take (t.offset s.stop)).drop (t.offset s.start)

@[simp] theorem offset_first_line (t : Text) (character : Nat) :
    t.offset ⟨0, character⟩ = character := by
  simp [offset]

theorem offset_lineFeed (t : Text) (line character : Nat) :
    offset (lineFeed :: t) ⟨line + 1, character⟩ = t.offset ⟨line, character⟩ + 1 := by
  rw [offset, offset, splitOn, if_pos rfl, List.take_succ_cons, List.flatMap_cons]
  simp only [List.nil_append, List.length_append, List.length_cons, List.length_nil]
  omega

theorem offset_cons {c : CodePoint} (h : c ≠ lineFeed) (t : Text) (line character : Nat) :
    offset (c :: t) ⟨line + 1, character⟩ = t.offset ⟨line + 1, character⟩ + 1 := by
  rw [offset, offset, splitOn, if_neg h]
  cases lines : splitOn lineFeed t with
  | nil => exact absurd lines (splitOn_ne_nil _ _)
  | cons first rest =>
    simp only [List.take_succ_cons, List.flatMap_cons, List.length_append, List.length_cons]
    omega

end Text

namespace Position

theorem step_lineFeed (p : Position) : p.step lineFeed = ⟨p.line + 1, 0⟩ := if_pos rfl

theorem step_of_ne (p : Position) {c : CodePoint} (h : c ≠ lineFeed) :
    p.step c = ⟨p.line, p.character + 1⟩ := if_neg h

/-- A start one line further down stays one line further down. -/
theorem after_line_succ (p : Position) (t : Text) :
    after ⟨p.line + 1, p.character⟩ t = ⟨(p.after t).line + 1, (p.after t).character⟩ := by
  induction t generalizing p with
  | nil => rfl
  | cons c t ih =>
    rw [after_cons, after_cons, ← ih (p.step c)]
    by_cases feed : c = lineFeed
    · rw [feed, step_lineFeed, step_lineFeed]
    · rw [step_of_ne _ feed, step_of_ne _ feed]

/-- A start one character further on stays one character further on up to the end of
the line. -/
theorem after_character_succ (p : Position) (t : Text) :
    after ⟨p.line, p.character + 1⟩ t =
      if (p.after t).line = p.line then ⟨p.line, (p.after t).character + 1⟩ else p.after t := by
  induction t generalizing p with
  | nil => rw [after_nil, after_nil, if_pos rfl]
  | cons c t ih =>
    rw [after_cons, after_cons]
    by_cases feed : c = lineFeed
    · -- Both starts come to the beginning of the next line.
      rw [feed, step_lineFeed, step_lineFeed]
      have below : p.line + 1 ≤ (after ⟨p.line + 1, 0⟩ t).line := by
        rcases le_iff.1 (le_after ⟨p.line + 1, 0⟩ t) with lower | same
        · exact Nat.le_of_lt lower
        · exact Nat.le_of_eq same.1
      rw [if_neg (by omega)]
    · rw [step_of_ne _ feed, step_of_ne _ feed]
      exact ih ⟨p.line, p.character + 1⟩

end Position

namespace Text

/-- **The place behind a beginning of a text counts its characters.** -/
theorem offset_after (start rest : Text) :
    offset (start ++ rest) (Position.zero.after start) = start.length := by
  induction start with
  | nil => exact offset_first_line rest 0
  | cons c start ih =>
    rw [List.cons_append, List.length_cons, Position.after_cons]
    by_cases feed : c = lineFeed
    · rw [feed, Position.step_lineFeed]
      change offset _ (Position.after ⟨Position.zero.line + 1, Position.zero.character⟩ start) = _
      rw [Position.after_line_succ, offset_lineFeed, ih]
    · rw [Position.step_of_ne _ feed]
      rw [Position.after_character_succ]
      generalize Position.zero.after start = p at ih
      obtain ⟨line, character⟩ := p
      cases line with
      | zero =>
        rw [offset_first_line] at ih
        rw [← ih, if_pos (show 0 = Position.zero.line from rfl)]
        exact offset_first_line _ _
      | succ line =>
        have below : line + 1 ≠ Position.zero.line := Nat.succ_ne_zero line
        rw [if_neg below, offset_cons feed, ih]

/-- The slice between the places in front of and behind a part of a text is that part. -/
theorem slice_between (start mid rest : Text) :
    slice (start ++ mid ++ rest) ⟨Position.zero.after start, Position.zero.after (start ++ mid)⟩ =
      mid := by
  have first : offset (start ++ mid ++ rest) (Position.zero.after start) = start.length := by
    rw [List.append_assoc]
    exact offset_after start (mid ++ rest)
  rw [slice, first, offset_after (start ++ mid) rest, List.take_left, List.drop_left]

end Text

/-! ### How far the segmentation looks ahead -/

/-- The shapes of segments that look one character ahead at most. -/
def Shape.isQuiet : Shape → Bool
  | .token kind => kind = .identifier || kind = .dot
  | _ => true

namespace Segment

variable {t t' : Text}

theorem runLength_ahead {p : CodePoint → Bool} (start : t' <+: t)
    (h : runLength p t < t'.length) : runLength p t' = runLength p t := by
  obtain ⟨rest, rfl⟩ := start
  unfold runLength at *
  rw [List.takeWhile_append] at *
  split
  · next all =>
    rw [if_pos all, List.length_append] at h
    omega
  · rfl

theorem blockLength_cons {c d : CodePoint} {cs : Text}
    (h : ¬(c = CodePoint.ofChar '*' ∧ d = CodePoint.ofChar '/')) :
    blockLength (c :: d :: cs) = blockLength (d :: cs) + 1 := by
  simp only [blockLength, blockBody, if_neg h, List.length_cons]
  split <;> split <;> omega

theorem blockLength_ahead (start : t' <+: t) (h : blockLength t < t'.length) :
    blockLength t' = blockLength t := by
  obtain ⟨rest, rfl⟩ := start
  fun_induction blockBody t' with
  | case1 => exact absurd h (Nat.not_lt_zero _)
  | case2 c =>
    have long : 1 ≤ blockLength ([c] ++ rest) := by
      simp only [blockLength]
      split
      · omega
      · next whole =>
        simp only [List.length_append, List.length_singleton] at whole ⊢
        omega
    exact absurd h (by simp only [List.length_singleton]; omega)
  | case3 c d cs closing =>
    simp only [List.cons_append, blockLength, blockBody, if_pos closing, List.length_nil,
      List.length_cons]
    rw [if_pos (by omega), if_pos (by omega)]
  | case4 c d cs closing ih =>
    rw [List.cons_append, List.cons_append, blockLength_cons closing] at h ⊢
    rw [blockLength_cons closing]
    have shorter : blockLength (d :: cs ++ rest) < (d :: cs).length := by
      rw [List.length_cons] at h ⊢
      rw [List.cons_append]
      rw [List.length_cons] at h
      omega
    rw [ih shorter, List.cons_append]

theorem startsUnsigned_congr {c : CodePoint} (h : t'.head? = t.head?) :
    startsUnsigned (c :: t') = startsUnsigned (c :: t) := by
  rw [startsUnsigned, startsUnsigned, h]

theorem isSign_eq_false {c : CodePoint}
    (h : punctuation? c = none ∨ punctuation? c = some .dot) : isSign c = false := by
  rw [Bool.eq_false_iff]
  intro sign
  rw [isSign, Bool.or_eq_true, decide_eq_true_eq, decide_eq_true_eq] at sign
  rcases sign with rfl | rfl
  · revert h
    decide
  · revert h
    decide

/-- **A segment is cut off by what follows it**: one character behind it is enough. -/
theorem classify_ahead {c : CodePoint} {shape : Shape} {more : Nat} (start : t' <+: t)
    (cut : classify c t = (shape, more)) (quiet : shape.isQuiet = true)
    (enough : more < t'.length) : classify c t' = (shape, more) := by
  have head : t'.head? = t.head? := by
    obtain ⟨rest, rfl⟩ := start
    cases t' with
    | nil => exact absurd enough (Nat.not_lt_zero _)
    | cons d ds => rfl
  by_cases identifier : isIdentifierStart c = true
  · rw [classify_identifier identifier] at cut ⊢
    cases cut
    rw [runLength_ahead start enough]
  unfold classify at cut ⊢
  rw [head, startsUnsigned_congr head]
  split_ifs at cut with blank line block quote unsigned signed
  · rw [if_pos blank]
    exact cut
  · cases cut
    rw [if_neg blank, if_pos line, runLength_ahead start enough]
  · cases cut
    have tails : t'.tail <+: t.tail := by
      obtain ⟨rest, rfl⟩ := start
      cases t' with
      | nil => exact absurd enough (Nat.not_lt_zero _)
      | cons d ds => exact ⟨rest, rfl⟩
    have shorter : blockLength t.tail < t'.tail.length := by
      rw [List.length_tail]
      omega
    rw [if_neg blank, if_neg line, if_pos block, blockLength_ahead tails shorter]
  · cases cut
    cases quiet
  · cases cut
    cases quiet
  · cases cut
    cases quiet
  · -- A dot or a stray character; a sign would be punctuation of another kind.
    have sign : isSign c = false := by
      split at cut
      · next kind mark =>
        cases cut
        have dot : kind = .dot := by
          rw [Shape.isQuiet, Bool.or_eq_true, decide_eq_true_eq, decide_eq_true_eq] at quiet
          refine quiet.resolve_left fun word => ?_
          obtain ⟨m, listed, -⟩ := mem_marks_of_punctuation? mark
          exact (kind_of_mem_marks listed).1 word
        exact isSign_eq_false (Or.inr (dot ▸ mark))
      · next none => exact isSign_eq_false (Or.inl none)
    rw [if_neg blank, if_neg line, if_neg block, if_neg quote, if_neg unsigned, sign,
      Bool.false_and, if_neg (by decide), if_neg identifier]
    exact cut

/-- What is left of the segments belongs to what is left of the text. -/
theorem segments_suffix {before after : List Segment} (h : segments t = before ++ after) :
    segments (after.flatMap text) = after := by
  fun_induction segments t generalizing before with
  | case1 =>
    obtain ⟨-, rfl⟩ := List.append_eq_nil_iff.1 h.symm
    exact segments.eq_1
  | case2 c cs shape more cut ih =>
    cases before with
    | nil =>
      have whole : segments (c :: cs) = after := by rw [segments, cut]; exact h
      rw [← whole, flatten_segments]
    | cons s before =>
      rw [List.cons_append, List.cons.injEq] at h
      exact ih h.2

/-- **Segments from the beginning of a text are the segments of their own text**, if they
are quiet and the last one is an identifier: what stands behind an identifier is not
needed to cut it off. -/
theorem segments_stretch {inner after : List Segment} (h : segments t = inner ++ after)
    (quiet : ∀ s ∈ inner, s.shape.isQuiet = true)
    (last : ∃ s, inner.getLast? = some s ∧ s.shape = .token .identifier) :
    segments (inner.flatMap text) = inner := by
  fun_induction segments t generalizing inner with
  | case1 =>
    obtain ⟨rfl, -⟩ := List.append_eq_nil_iff.1 h.symm
    exact segments.eq_1
  | case2 c cs shape more cut ih =>
    cases inner with
    | nil =>
      obtain ⟨s, none, -⟩ := last
      cases none
    | cons s rest =>
      rw [List.cons_append, List.cons.injEq] at h
      obtain ⟨rfl, later⟩ := h
      obtain ⟨s, final, word⟩ := last
      cases rest with
      | nil =>
        cases final
        cases word
        have start : isIdentifierStart c = true := by
          cases tokenStart_of_classify cut with
          | identifier start => exact start
          | punctuation mark _ listed same => exact absurd rfl (kind_of_mem_marks listed).1
        rw [classify_identifier start, Prod.mk.injEq] at cut
        have all : runLength isIdentifierPart (cs.take more) = (cs.take more).length := by
          rw [← cut.2, take_runLength, runLength, List.takeWhile_takeWhile]
          simp
        rw [List.flatMap_singleton, segments, classify_identifier start, all]
        simp only [List.take_length, List.drop_length]
        rw [segments.eq_1]
      | cons s' rest =>
        have tail := ih later (fun s hs => quiet s (List.mem_cons_of_mem _ hs)) ⟨s, final, word⟩
        have text : cs.drop more = (s' :: rest).flatMap Segment.text ++
            after.flatMap Segment.text := by
          rw [← flatten_segments (cs.drop more), later, List.flatMap_append]
        have start : cs.take more ++ (s' :: rest).flatMap Segment.text <+: cs :=
          ⟨after.flatMap Segment.text, by rw [List.append_assoc, ← text, List.take_append_drop]⟩
        have short : (cs.take more).length = more := by
          rw [List.length_take, Nat.min_eq_left]
          refine Nat.le_of_not_lt fun long => ?_
          rw [List.drop_of_length_le (Nat.le_of_lt long), segments.eq_1] at later
          cases later
        have nonempty : (s' :: rest).flatMap Segment.text ≠ [] := by
          have there : s' ∈ segments (cs.drop more) := later ▸ List.mem_cons_self
          rw [List.flatMap_cons]
          exact fun none => text_ne_nil_of_mem_segments there (List.append_eq_nil_iff.1 none).1
        have enough : more < (cs.take more ++ (s' :: rest).flatMap Segment.text).length := by
          rw [List.length_append, short]
          have := List.length_pos_of_ne_nil nonempty
          omega
        have same := classify_ahead start cut (quiet _ List.mem_cons_self) enough
        rw [List.flatMap_cons, List.cons_append, segments, same]
        simp only
        rw [List.take_left' short, List.drop_left' short, tail]

end Segment

/-! ### Slices over tokens -/

theorem Token.Covers.unique {w : List Token} {s s' : Span} (h : Covers w s) (h' : Covers w s') :
    s = s' := by
  obtain ⟨first, head, start⟩ := h.first
  obtain ⟨last, final, stop⟩ := h.last
  obtain ⟨first', head', start'⟩ := h'.first
  obtain ⟨last', final', stop'⟩ := h'.last
  rw [head, Option.some.injEq] at head'
  rw [final, Option.some.injEq] at final'
  obtain ⟨a, b⟩ := s
  obtain ⟨a', b'⟩ := s'
  simp_all

theorem Segment.eq_of_lexeme? {s : Segment} {l : Lexeme} (h : s.lexeme? = some l) :
    s = ⟨.token l.kind, l.text⟩ := by
  obtain ⟨shape, text⟩ := s
  unfold lexeme? at h
  split at h
  · next kind token =>
    cases h
    cases token
    rfl
  · cases h

namespace TokenStream

variable {t : Text} {w : List Token} {s : Span}

/-- The slice over neighbouring tokens is the text of the segments they are cut from. -/
theorem slice_of_covers (h : w <:+: (ofText t).tokens) (covers : Token.Covers w s) :
    ∃ before inner after : List Segment, Segment.segments t = before ++ inner ++ after ∧
      t.slice s = inner.flatMap Segment.text ∧
      inner.filterMap Segment.lexeme? = w.map Token.lexeme ∧
      (∃ s, inner.head? = some s ∧ s.lexeme? = (w.map Token.lexeme).head?) ∧
      ∃ s, inner.getLast? = some s ∧ s.lexeme? = (w.map Token.lexeme).getLast? := by
  have ne : w ≠ [] := by
    rintro rfl
    obtain ⟨first, head, -⟩ := covers.first
    cases head
  obtain ⟨before, inner, after, split, lexemes, first, last, covers'⟩ := exists_segments h ne
  refine ⟨before, inner, after, split, ?_, lexemes, first, last⟩
  have whole : t = before.flatMap Segment.text ++ inner.flatMap Segment.text ++
      after.flatMap Segment.text := by
    rw [← List.flatMap_append, ← List.flatMap_append, ← split, Segment.flatten_segments]
  rw [covers.unique covers', List.flatMap_append]
  conv_lhs => rw [whole]
  exact Text.slice_between _ _ _

/-- **The slice at a token is the token.** -/
theorem slice_token {token : Token} (h : token ∈ (ofText t).tokens) :
    t.slice token.span = token.text := by
  have alone : [token] <:+: (ofText t).tokens := by
    obtain ⟨before, after, split⟩ := List.append_of_mem h
    exact ⟨before, after, by rw [split]; simp⟩
  obtain ⟨-, inner, -, -, slice, lexemes, ⟨a, head, first⟩, b, final, last⟩ :=
    slice_of_covers alone (Token.covers_singleton token)
  obtain ⟨tail, rfl⟩ := List.head?_eq_some_iff.1 head
  have text : a.text = token.text := congrArg Segment.text (Segment.eq_of_lexeme? first)
  have rest : tail.filterMap Segment.lexeme? = [] := by
    rw [List.filterMap_cons_some first] at lexemes
    exact (List.cons.inj lexemes).2
  cases tail with
  | nil => rw [slice, List.flatMap_singleton, text]
  | cons c cs =>
    -- The last segment would be a second token.
    have there : b ∈ c :: cs := List.mem_of_getLast? final
    have none := List.filterMap_eq_nil_iff.1 rest b there
    rw [last] at none
    cases none

/-- **A slice over a path has the tokens of the path.**  Whatever stands between the
identifiers and dots, the slice from the first to the last of them has the same tokens. -/
theorem lexemes_slice (h : w <:+: (ofText t).tokens) (covers : Token.Covers w s)
    (path : ∀ token ∈ w, token.kind = .identifier ∨ token.kind = .dot)
    (word : ∃ token, w.getLast? = some token ∧ token.kind = .identifier) :
    (ofText (t.slice s)).tokens.map Token.lexeme = w.map Token.lexeme := by
  obtain ⟨before, inner, after, split, slice, lexemes, -, b, final, last⟩ :=
    slice_of_covers h covers
  rw [List.append_assoc] at split
  have suffix := Segment.segments_suffix split
  have quiet : ∀ s ∈ inner, s.shape.isQuiet = true := by
    intro s hs
    cases shape : s.shape with
    | token kind =>
      have mem : (⟨kind, s.text⟩ : Lexeme) ∈ w.map Token.lexeme := by
        rw [← lexemes, List.mem_filterMap]
        exact ⟨s, hs, by rw [Segment.lexeme?, shape]⟩
      obtain ⟨token, ht, same⟩ := List.mem_map.1 mem
      have kinds : kind = token.kind := congrArg Lexeme.kind same.symm
      rw [kinds, Shape.isQuiet, Bool.or_eq_true, decide_eq_true_eq, decide_eq_true_eq]
      exact path token ht
    | _ => rfl
  have identifier : b.shape = .token .identifier := by
    obtain ⟨token, hlast, kind⟩ := word
    rw [List.getLast?_map, hlast] at last
    rw [Segment.eq_of_lexeme? last, ← kind]
    rfl
  rw [map_lexeme_ofText, slice, Segment.segments_stretch suffix quiet ⟨b, final, identifier⟩,
    lexemes]

end TokenStream
end ProtoAtlas
