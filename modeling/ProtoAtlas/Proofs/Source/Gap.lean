/-
# What stands between tokens

Cutting a text into tokens loses nothing (`TokenStream.text_is_tokens_and_gaps`).  Every
token is a stretch of the text between two offsets, its span is where these offsets are,
counted in line feeds and characters (`Text.positionAt`), and what is left over is made of
gaps: white space, comments, and characters that start no token (`Text.Gap`).

How far a comment reaches, and whether a `/` is a character on its own, depends on what
comes behind the gap, so a gap is one in front of the rest of its text.
-/

import Mathlib.Data.List.Forall2
import Mathlib.Data.List.Induction
import ProtoAtlas.Proofs.Source.Respaced
import ProtoAtlas.Proofs.Source.Slice

namespace ProtoAtlas

/-! ### Offsets and positions -/

/-- The position behind the first characters of a text: how many line feeds there are among
them, and how many characters behind the last one. -/
def Text.positionAt (t : Text) (offset : Nat) : Position where
  line := (t.take offset).count lineFeed
  character := ((t.take offset).reverse.takeWhile (· ≠ lineFeed)).length

/-- The characters of a text from one offset to another. -/
def Text.between (t : Text) (start stop : Nat) : Text := (t.take stop).drop start

/-- **Stepping through a text counts its line feeds and the characters behind them.** -/
theorem Position.after_eq_count (t : Text) :
    zero.after t = ⟨t.count lineFeed, (t.reverse.takeWhile (· ≠ lineFeed)).length⟩ := by
  induction t using List.reverseRecOn with
  | nil => rfl
  | append_singleton t c ih =>
    rw [after_append, ih, after_cons, after_nil, List.count_append, List.reverse_append]
    by_cases feed : c = lineFeed
    · rw [feed, step_lineFeed]
      simp
    · rw [step_of_ne _ feed]
      simp [feed]

theorem Text.positionAt_append (start rest : Text) :
    (start ++ rest).positionAt start.length = Position.zero.after start := by
  rw [positionAt, List.take_left, Position.after_eq_count]

theorem Text.between_append (start rest : Text) (n : Nat) :
    (start ++ rest).between start.length (start.length + n) = rest.take n := by
  rw [between, List.take_length_add_append, List.drop_left]

/-! ### Gaps -/

/-- The characters that can start a token. -/
def Segment.startsToken (c : CodePoint) : Bool :=
  isQuote c || isIdentifierStart c || c.isDigit || (punctuation? c).isSome

/-- `Gap gap rest`: in front of `rest`, a text is made of white space, comments and
characters that start no token. -/
inductive Text.Gap : Text → Text → Prop
  | none (rest : Text) : Gap [] rest
  | blank {c : CodePoint} {gap rest : Text} (white : c.isBlank = true) (more : Gap gap rest) :
      Gap (c :: gap) rest
  /-- A line comment ends in front of a line feed, or at the end of the text. -/
  | lineComment {body gap rest : Text} (inLine : lineFeed ∉ body)
      (stop : ∀ c ∈ (gap ++ rest).head?, c = lineFeed) (more : Gap gap rest) :
      Gap (("//" : Text) ++ body ++ gap) rest
  | blockComment {body gap rest : Text} (inside : ¬("*/" : Text) <:+: body) (more : Gap gap rest) :
      Gap (("/*" : Text) ++ body ++ ("*/" : Text) ++ gap) rest
  /-- A block comment without an end reaches to the end of the text. -/
  | openComment {body : Text} (inside : ¬("*/" : Text) <:+: body) : Gap (("/*" : Text) ++ body) []
  | stray {c : CodePoint} {gap rest : Text} (idle : Segment.startsToken c = false)
      (slash : c = CodePoint.ofChar '/' → ∀ d ∈ (gap ++ rest).head?,
        d ≠ CodePoint.ofChar '/' ∧ d ≠ CodePoint.ofChar '*')
      (more : Gap gap rest) : Gap (c :: gap) rest

namespace Segment

/-- The body of a block comment holds no end of a comment, and behind it is one, or nothing. -/
theorem blockBody_spec (t : Text) : ¬("*/" : Text) <:+: blockBody t ∧
    (t = blockBody t ∨ ∃ rest, t = blockBody t ++ (("*/" : Text) ++ rest)) := by
  have mark : ("*/" : Text) = [CodePoint.ofChar '*', CodePoint.ofChar '/'] := rfl
  fun_induction blockBody t with
  | case1 => exact ⟨by decide, Or.inl rfl⟩
  | case2 c =>
    refine ⟨fun inside => ?_, Or.inl rfl⟩
    have short : 2 ≤ 1 := inside.length_le
    omega
  | case3 c d cs closing =>
    rw [closing.1, closing.2]
    exact ⟨by decide, Or.inr ⟨cs, rfl⟩⟩
  | case4 c d cs closing ih =>
    obtain ⟨inside, behind⟩ := ih
    have start : blockBody (d :: cs) <+: d :: cs := by
      rcases behind with whole | ⟨rest, whole⟩
      · exact ⟨[], by rw [List.append_nil, ← whole]⟩
      · exact ⟨_, whole.symm⟩
    constructor
    · intro inside'
      rcases List.infix_cons_iff.1 inside' with front | later
      · -- The mark would begin with `c`, and its second character with what follows `c`.
        rw [mark, List.cons_prefix_cons] at front
        have second := front.2.trans start
        rw [List.cons_prefix_cons] at second
        exact closing ⟨front.1.symm, second.1.symm⟩
      · exact inside later
    · rcases behind with whole | ⟨rest, whole⟩
      · exact Or.inl (congrArg (c :: ·) whole)
      · exact Or.inr ⟨rest, congrArg (c :: ·) whole⟩

/-- **A block comment is closed by the first end of a comment, or reaches to the end of the
text.** -/
theorem take_blockLength (t : Text) : ∃ body : Text, ¬("*/" : Text) <:+: body ∧
    (t.take (blockLength t) = body ++ ("*/" : Text) ∨
      t.take (blockLength t) = body ∧ t.drop (blockLength t) = []) := by
  obtain ⟨inside, whole | ⟨rest, whole⟩⟩ := blockBody_spec t
  · have length : blockLength t = t.length := by
      rw [blockLength, ← whole]
      exact if_neg (Nat.lt_irrefl _)
    rw [length, List.take_length, List.drop_length]
    exact ⟨t, by rwa [← whole] at inside, Or.inr ⟨rfl, rfl⟩⟩
  · have long : (blockBody t).length < t.length := by
      conv_rhs => rw [whole]
      rw [List.length_append, List.length_append]
      change _ < _ + (2 + _)
      omega
    have length : blockLength t = (blockBody t ++ ("*/" : Text)).length := by
      rw [blockLength, List.length_append]
      exact if_pos long
    have start : blockBody t ++ ("*/" : Text) <+: t := ⟨rest, by rw [List.append_assoc, ← whole]⟩
    exact ⟨blockBody t, inside, Or.inl (by rw [length, ← List.prefix_iff_eq_take.1 start])⟩

/-- A line comment reaches up to the first line feed. -/
theorem gap_lineComment {cs gap rest : Text}
    (text : (CodePoint.ofChar '/' :: cs).drop
      (runLength (· ≠ CodePoint.ofChar '\n') (CodePoint.ofChar '/' :: cs)) = gap ++ rest)
    (behind : Text.Gap gap rest) :
    Text.Gap (CodePoint.ofChar '/' :: (CodePoint.ofChar '/' :: cs).take
      (runLength (· ≠ CodePoint.ofChar '\n') (CodePoint.ofChar '/' :: cs)) ++ gap) rest := by
  have inLine : CodePoint.ofChar '/' ≠ CodePoint.ofChar '\n' := by decide
  have body : (CodePoint.ofChar '/' :: cs).take
      (runLength (· ≠ CodePoint.ofChar '\n') (CodePoint.ofChar '/' :: cs)) =
      CodePoint.ofChar '/' :: cs.takeWhile (· ≠ lineFeed) := by
    rw [take_runLength, List.takeWhile_cons_of_pos (by simp [inLine])]
    rfl
  have free : lineFeed ∉ cs.takeWhile (· ≠ lineFeed) := fun feed => by
    simpa using List.mem_takeWhile_imp feed
  rw [body]
  refine .lineComment free (fun d hd => ?_) behind
  rw [← text, drop_runLength] at hd
  have stop := List.head?_dropWhile_not (· ≠ CodePoint.ofChar '\n') (CodePoint.ofChar '/' :: cs)
  rw [Option.mem_def.1 hd] at stop
  have feed : d = CodePoint.ofChar '\n' := by simpa using stop
  exact feed

theorem gap_blockComment {cs gap rest : Text} (text : cs.drop (blockLength cs) = gap ++ rest)
    (behind : Text.Gap gap rest) :
    Text.Gap (("/*" : Text) ++ cs.take (blockLength cs) ++ gap) rest := by
  obtain ⟨body, inside, closed | ⟨open_, ended⟩⟩ := take_blockLength cs
  · have whole := Text.Gap.blockComment inside behind
    rw [closed]
    rwa [List.append_assoc ("/*" : Text)] at whole
  · rw [ended, eq_comm, List.append_eq_nil_iff] at text
    rw [open_, text.1, text.2, List.append_nil]
    exact .openComment inside

/-- **A segment that is no token belongs to a gap**, together with the gap behind it. -/
theorem gap_of_classify {c : CodePoint} {cs gap rest : Text} {shape : Shape} {more : Nat}
    (cut : classify c cs = (shape, more)) (idle : ∀ kind, shape ≠ .token kind)
    (text : cs.drop more = gap ++ rest) (behind : Text.Gap gap rest) :
    Text.Gap (c :: cs.take more ++ gap) rest := by
  unfold classify at cut
  split_ifs at cut with blank line block quote unsigned signed identifier
  · cases cut
    exact .blank blank behind
  · obtain ⟨rfl, head⟩ := line
    obtain ⟨cs, rfl⟩ := List.head?_eq_some_iff.1 head
    cases cut
    exact gap_lineComment text behind
  · obtain ⟨rfl, head⟩ := block
    obtain ⟨cs, rfl⟩ := List.head?_eq_some_iff.1 head
    cases cut
    rw [List.tail_cons, Nat.add_comm 1, List.take_succ_cons]
    rw [List.tail_cons, Nat.add_comm 1, List.drop_succ_cons] at text
    exact gap_blockComment text behind
  · exact absurd (congrArg Prod.fst cut).symm (idle _)
  · exact absurd (congrArg Prod.fst cut).symm (idle _)
  · exact absurd (congrArg Prod.fst cut).symm (idle _)
  · exact absurd (congrArg Prod.fst cut).symm (idle _)
  · split at cut
    · exact absurd (congrArg Prod.fst cut).symm (idle _)
    · next unmarked =>
      cases cut
      have digit : c.isDigit = false := by
        rw [startsUnsigned, Bool.or_eq_true, not_or] at unsigned
        exact Bool.eq_false_iff.2 unsigned.1
      have start : startsToken c = false := by
        rw [startsToken, unmarked, digit, Bool.eq_false_iff.2 quote, Bool.eq_false_iff.2 identifier]
        rfl
      rw [List.drop_zero] at text
      rw [List.take_zero, List.singleton_append]
      refine .stray start (fun slash d hd => ?_) behind
      rw [← text, Option.mem_def] at hd
      constructor
      · rintro rfl
        exact line ⟨slash, hd⟩
      · rintro rfl
        exact block ⟨slash, hd⟩

end Segment

/-! ### Tokens and gaps -/

namespace TokenStream

/-- A lexeme with its span is what stands in a text between two offsets. -/
def StandsAt (t : Text) (site : Lexeme × Span) (offsets : Nat × Nat) : Prop :=
  offsets.1 < offsets.2 ∧ site.1.text = t.between offsets.1 offsets.2 ∧
    site.2 = ⟨t.positionAt offsets.1, t.positionAt offsets.2⟩

/-- Between two offsets of a text is a gap. -/
def GapBetween (t : Text) (start stop : Nat) : Prop :=
  start ≤ stop ∧ Text.Gap (t.between start stop) (t.drop stop)

theorem gapBetween_self (t : Text) (offset : Nat) : GapBetween t offset offset := by
  refine ⟨Nat.le_refl _, ?_⟩
  rw [Text.between, List.drop_eq_nil_of_le (List.length_take_le _ _)]
  exact .none _

/-- A gap begins earlier if what is in front of it joins it. -/
theorem GapBetween.widen {front piece rest : Text} {stop : Nat}
    (h : GapBetween (front ++ piece ++ rest) (front ++ piece).length stop)
    (join : ∀ gap behind, rest = gap ++ behind → Text.Gap gap behind →
      Text.Gap (piece ++ gap) behind) :
    GapBetween (front ++ piece ++ rest) front.length stop := by
  obtain ⟨le, gap⟩ := h
  obtain ⟨n, rfl⟩ := Nat.exists_eq_add_of_le le
  rw [Text.between_append, List.drop_length_add_append] at gap
  have wider := join _ _ (List.take_append_drop n rest).symm gap
  refine ⟨by rw [List.length_append]; omega, ?_⟩
  rw [List.drop_length_add_append]
  rw [List.append_assoc, List.length_append, Nat.add_assoc, Text.between_append,
    List.take_length_add_append]
  exact wider

/-- **From any offset on, a text is tokens and gaps**, as its segments are read. -/
theorem exists_offsets (front t : Text) : ∃ offsets : List (Nat × Nat),
    List.Forall₂ (StandsAt (front ++ t))
      ((place (Position.zero.after front) (Segment.segments t)).filterMap PlacedSegment.site?)
      offsets ∧
    List.Forall₂ (GapBetween (front ++ t)) (front.length :: offsets.map (·.2))
      (offsets.map (·.1) ++ [(front ++ t).length]) := by
  fun_induction Segment.segments t generalizing front with
  | case1 =>
    refine ⟨[], by rw [place]; exact .nil, .cons ?_ .nil⟩
    rw [List.append_nil]
    exact gapBetween_self _ _
  | case2 c cs shape more cut ih =>
    have whole : front ++ c :: cs = front ++ (c :: cs.take more) ++ cs.drop more := by
      rw [List.append_assoc, List.cons_append, List.take_append_drop]
    obtain ⟨offsets, tokens, gaps⟩ := ih (front ++ (c :: cs.take more))
    rw [Position.after_append] at tokens
    rw [whole, place]
    by_cases token : ∃ kind, shape = .token kind
    · obtain ⟨kind, rfl⟩ := token
      refine ⟨(front.length, (front ++ (c :: cs.take more)).length) :: offsets, ?_, ?_⟩
      · refine .cons ⟨?_, ?_, ?_⟩ tokens
        · simp
        · rw [List.append_assoc, List.length_append, Text.between_append, List.take_left]
        · rw [Text.positionAt_append, List.append_assoc, Text.positionAt_append,
            Position.after_append]
      · exact .cons (gapBetween_self _ _) gaps
    · have idle : ∀ kind, shape ≠ .token kind := fun kind h => token ⟨kind, h⟩
      refine ⟨offsets, ?_, ?_⟩
      · have none : PlacedSegment.site? ⟨⟨shape, c :: cs.take more⟩, ⟨Position.zero.after front,
            (Position.zero.after front).after (c :: cs.take more)⟩⟩ = none := by
          cases shape with
          | token kind => exact absurd rfl (idle kind)
          | _ => rfl
        rwa [List.filterMap_cons_none none]
      · generalize offsets.map (·.1) ++ _ = stops at gaps ⊢
        cases gaps with
        | cons first others =>
          exact .cons (first.widen fun _ _ => Segment.gap_of_classify cut idle) others

/-- **A text is its tokens and the gaps between them.**  There are offsets, two for each
token: the token is the text between them, and its span is where they are.  From the start
of the text to the first token, from each token to the next one, and from the last token to
the end of the text there is a gap.  Behind all tokens stands the one token for the end of
the file, which is empty. -/
theorem text_is_tokens_and_gaps (t : Text) : ∃ offsets : List (Nat × Nat),
    List.Forall₂ (fun token o => o.1 < o.2 ∧ token.text = t.between o.1 o.2 ∧
      token.span = ⟨t.positionAt o.1, t.positionAt o.2⟩) (ofText t).tokens offsets ∧
    List.Forall₂ (GapBetween t) (0 :: offsets.map (·.2)) (offsets.map (·.1) ++ [t.length]) ∧
    (∀ token ∈ (ofText t).tokens, token.kind ≠ .endOfFile) ∧
    (ofText t).finish.kind = .endOfFile ∧ (ofText t).finish.text = [] ∧
    (ofText t).finish.span = ⟨t.positionAt t.length, t.positionAt t.length⟩ := by
  obtain ⟨offsets, tokens, gaps⟩ := exists_offsets [] t
  refine ⟨offsets, ?_, gaps, fun token ht => ?_, rfl, rfl, ?_⟩
  · have sites : List.Forall₂ (StandsAt t) ((ofText t).tokens.map Token.site) offsets := by
      rw [map_site_ofText]
      exact tokens
    exact List.forall₂_map_left_iff.1 sites
  · intro ended
    obtain ⟨c, cs, more, cut, -⟩ := Token.lexed_of_mem_tokens ht
    rw [Token.lexeme_kind, ended] at cut
    cases Segment.tokenStart_of_classify cut with
    | punctuation mark _ listed _ =>
      have proper : ∀ m ∈ Segment.marks, m.2 ≠ .endOfFile := by decide
      exact proper _ listed rfl
  · have stop := Text.positionAt_append t []
    rw [List.append_nil] at stop
    rw [stop]
    rfl

end TokenStream
end ProtoAtlas
