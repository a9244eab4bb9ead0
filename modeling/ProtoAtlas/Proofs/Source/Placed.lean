/-
# Where tokens stand

The segments of a text are placed one behind the other, and the tokens of the text stand
where their segments do (`TokenStream.map_site_ofText`): comments change neither what a
token is nor where it is.  So the tokens are sorted by place (`TokenStream.sorted_tokens`),
and every stretch of neighbouring tokens is cut out of the text by a stretch of segments
that begins and ends with the same places (`TokenStream.exists_segments`).

`Token.Covers` is how spans of declarations arise: from the first to the last of some
tokens.  Among sorted tokens such spans inherit the order of the tokens.
-/

import ProtoAtlas.Proofs.Source.Lexeme

namespace ProtoAtlas

/-! ### The order of positions -/

namespace Position

instance : LT Position :=
  ⟨fun a b => a.line < b.line ∨ a.line = b.line ∧ a.character < b.character⟩

instance (a b : Position) : Decidable (a < b) :=
  inferInstanceAs (Decidable (a.line < b.line ∨ a.line = b.line ∧ a.character < b.character))

theorem le_iff {a b : Position} :
    a ≤ b ↔ a.line < b.line ∨ a.line = b.line ∧ a.character ≤ b.character := Iff.rfl

theorem lt_iff {a b : Position} :
    a < b ↔ a.line < b.line ∨ a.line = b.line ∧ a.character < b.character := Iff.rfl

protected theorem le_refl (a : Position) : a ≤ a := by
  rw [le_iff]
  omega

protected theorem le_trans {a b c : Position} (h : a ≤ b) (h' : b ≤ c) : a ≤ c := by
  rw [le_iff] at *
  omega

protected theorem le_of_lt {a b : Position} (h : a < b) : a ≤ b := by
  rw [lt_iff] at h
  rw [le_iff]
  omega

protected theorem lt_of_lt_of_le {a b c : Position} (h : a < b) (h' : b ≤ c) : a < c := by
  rw [lt_iff] at *
  rw [le_iff] at h'
  omega

protected theorem zero_le (a : Position) : zero ≤ a := by
  rw [le_iff]
  change 0 < a.line ∨ 0 = a.line ∧ 0 ≤ a.character
  omega

theorem lt_step (p : Position) (c : CodePoint) : p < p.step c := by
  rw [lt_iff, step]
  split
  · exact Or.inl (Nat.lt_succ_self _)
  · exact Or.inr ⟨rfl, Nat.lt_succ_self _⟩

/-- A text leads to a later place. -/
theorem le_after (p : Position) (t : Text) : p ≤ p.after t := by
  induction t generalizing p with
  | nil => exact Position.le_refl p
  | cons c t ih => exact Position.le_of_lt (Position.lt_of_lt_of_le (lt_step p c) (ih _))

theorem lt_after (p : Position) {t : Text} (h : t ≠ []) : p < p.after t := by
  cases t with
  | nil => exact absurd rfl h
  | cons c t => exact Position.lt_of_lt_of_le (lt_step p c) (le_after _ t)

end Position

/-- One span lies inside another. -/
def Span.Inside (s t : Span) : Prop := t.start ≤ s.start ∧ s.stop ≤ t.stop

/-! ### Sorted tokens and what they cover -/

namespace Token

/-- Tokens that stand one behind the other, none of them empty. -/
structure Sorted (w : List Token) : Prop where
  ordered : w.Pairwise fun a b => a.span.stop ≤ b.span.start
  proper : ∀ t ∈ w, t.span.start < t.span.stop

/-- A span runs from the first to the last of some tokens. -/
structure Covers (w : List Token) (s : Span) : Prop where
  first : ∃ t, w.head? = some t ∧ s.start = t.span.start
  last : ∃ t, w.getLast? = some t ∧ s.stop = t.span.stop

theorem Sorted.sublist {v w : List Token} (h : Sorted w) (sub : v.Sublist w) : Sorted v where
  ordered := h.ordered.sublist sub
  proper := fun t ht => h.proper t (sub.subset ht)

/-- The first of sorted tokens starts before the others. -/
theorem Sorted.head_le {w : List Token} (h : Sorted w) {first t : Token}
    (head : w.head? = some first) (ht : t ∈ w) : first.span.start ≤ t.span.start := by
  obtain ⟨rest, rfl⟩ := List.head?_eq_some_iff.1 head
  rcases List.mem_cons.1 ht with rfl | ht
  · exact Position.le_refl _
  · exact Position.le_trans (Position.le_of_lt (h.proper first List.mem_cons_self))
      ((List.pairwise_cons.1 h.ordered).1 t ht)

/-- The last of sorted tokens stops behind the others. -/
theorem Sorted.le_last {w : List Token} (h : Sorted w) {last t : Token}
    (final : w.getLast? = some last) (ht : t ∈ w) : t.span.stop ≤ last.span.stop := by
  obtain ⟨front, rfl⟩ := List.getLast?_eq_some_iff.1 final
  rcases List.mem_append.1 ht with ht | ht
  · have before := (List.pairwise_append.1 h.ordered).2.2 t ht last List.mem_cons_self
    exact Position.le_trans before (Position.le_of_lt (h.proper last (by simp)))
  · rw [List.mem_singleton.1 ht]
    exact Position.le_refl _

theorem covers_singleton (t : Token) : Covers [t] t.span :=
  ⟨⟨t, rfl, rfl⟩, ⟨t, rfl, rfl⟩⟩

namespace Covers

variable {v w : List Token} {s s' : Span}

theorem inside_of_mem (h : Covers w s) (sorted : Sorted w) {t : Token} (ht : t ∈ w) :
    t.span.Inside s := by
  obtain ⟨first, head, start⟩ := h.first
  obtain ⟨last, final, stop⟩ := h.last
  exact ⟨start ▸ sorted.head_le head ht, stop ▸ sorted.le_last final ht⟩

/-- A span over sorted tokens is not empty. -/
theorem proper (h : Covers w s) (sorted : Sorted w) : s.start < s.stop := by
  obtain ⟨first, head, start⟩ := h.first
  have there := List.mem_of_head? head
  rw [start]
  exact Position.lt_of_lt_of_le (sorted.proper first there) (h.inside_of_mem sorted there).2

/-- A span over some of the tokens lies inside. -/
theorem inside (h : Covers w s) (sorted : Sorted w) (h' : Covers v s') (sub : v ⊆ w) :
    s'.Inside s := by
  obtain ⟨first, head, start⟩ := h'.first
  obtain ⟨last, final, stop⟩ := h'.last
  constructor
  · rw [start]
    exact (h.inside_of_mem sorted (sub (List.mem_of_head? head))).1
  · rw [stop]
    exact (h.inside_of_mem sorted (sub (List.mem_of_getLast? final))).2

/-- Spans over tokens that follow each other follow each other. -/
theorem stop_le_start (h : Covers v s) (h' : Covers w s') (sorted : Sorted (v ++ w)) :
    s.stop ≤ s'.start := by
  obtain ⟨last, final, stop⟩ := h.last
  obtain ⟨first, head, start⟩ := h'.first
  rw [stop, start]
  exact (List.pairwise_append.1 sorted.ordered).2.2 last (List.mem_of_getLast? final) first
    (List.mem_of_head? head)

end Covers

/-- What a token is and where it stands, without its comments. -/
def site (t : Token) : Lexeme × Span := (t.lexeme, t.span)

@[simp] theorem site_addTrailing (t : Token) (comment : Text) :
    (t.addTrailing comment).site = t.site := by
  unfold addTrailing
  split <;> rfl

end Token

/-- What a segment that is a token is and where it stands. -/
def PlacedSegment.site? (p : PlacedSegment) : Option (Lexeme × Span) :=
  p.segment.lexeme?.map fun l => (l, p.span)

namespace TokenStream

/-- Comments change no site. -/
theorem map_site_attach (near : Bool) (last : Option Token) (pending : List Text)
    (ps : List PlacedSegment) : (attach near last pending ps).1.map Token.site =
      last.toList.map Token.site ++ ps.filterMap PlacedSegment.site? := by
  induction ps generalizing near last pending with
  | nil => simp [attach]
  | cons p rest ih =>
    unfold attach
    split
    · next kind shape =>
      have here : p.site? = some (⟨kind, p.segment.text⟩, p.span) := by
        simp [PlacedSegment.site?, Segment.lexeme?, shape]
      simp only [List.map_append, ih, List.filterMap_cons, here]
      rfl
    · next shape =>
      have here : p.site? = none := by
        unfold PlacedSegment.site? Segment.lexeme?
        split
        · next kind h => exact absurd h (shape kind)
        · rfl
      rw [List.filterMap_cons, here]
      split
      · exact ih _ _ _
      · exact ih _ _ _
      · split
        · rw [ih]
          simp
        · exact ih _ _ _

/-- **The tokens of a text stand where its token segments do.** -/
theorem map_site_ofText (t : Text) : (ofText t).tokens.map Token.site =
    (place Position.zero (Segment.segments t)).filterMap PlacedSegment.site? :=
  map_site_attach false none [] (place Position.zero (Segment.segments t))

/-! ### The places of segments -/

/-- A placed segment starts behind the text in front of it. -/
theorem span_of_place_eq {p : Position} {ss : List Segment} {before after : List PlacedSegment}
    {q : PlacedSegment} (h : place p ss = before ++ q :: after) :
    q.span = ⟨p.after (before.flatMap (·.segment.text)),
      p.after ((before ++ [q]).flatMap (·.segment.text))⟩ := by
  induction ss generalizing p before with
  | nil => simp [place] at h
  | cons s rest ih =>
    rw [place] at h
    cases before with
    | nil =>
      rw [List.nil_append, List.cons.injEq] at h
      rw [← h.1]
      simp
    | cons b before =>
      rw [List.cons_append, List.cons.injEq] at h
      rw [ih h.2, ← h.1]
      simp [Position.after_append]

theorem pairwise_place (p : Position) (ss : List Segment) :
    (place p ss).Pairwise fun a b => a.span.stop ≤ b.span.start := by
  have later : ∀ (ss : List Segment) (p : Position), ∀ q ∈ place p ss, p ≤ q.span.start := by
    intro ss p q hq
    obtain ⟨before, after, split⟩ := List.append_of_mem hq
    rw [span_of_place_eq split]
    exact Position.le_after p _
  induction ss generalizing p with
  | nil => exact List.Pairwise.nil
  | cons s rest ih => exact List.Pairwise.cons (later rest _) (ih _)

theorem start_lt_stop_of_mem_place {t : Text} {q : PlacedSegment}
    (h : q ∈ place Position.zero (Segment.segments t)) : q.span.start < q.span.stop := by
  obtain ⟨before, after, split⟩ := List.append_of_mem h
  have there : q.segment ∈ Segment.segments t := by
    have mem := List.mem_map_of_mem (f := PlacedSegment.segment) h
    rwa [map_segment_place] at mem
  rw [span_of_place_eq split, List.flatMap_append, Position.after_append, List.flatMap_singleton]
  exact Position.lt_after _ (Segment.text_ne_nil_of_mem_segments there)

/-- **The tokens of a text are sorted.** -/
theorem sorted_tokens (t : Text) : Token.Sorted (ofText t).tokens := by
  have sites := map_site_ofText t
  constructor
  · have spans : ((ofText t).tokens.map Token.site).Pairwise fun a b => a.2.stop ≤ b.2.start := by
      rw [sites, List.pairwise_filterMap]
      have placed := pairwise_place Position.zero (Segment.segments t)
      refine placed.imp fun {a b} before x hx y hy => ?_
      obtain ⟨l, -, rfl⟩ := Option.map_eq_some_iff.1 hx
      obtain ⟨l', -, rfl⟩ := Option.map_eq_some_iff.1 hy
      exact before
    exact List.pairwise_map.1 spans
  · intro token ht
    have mem : token.site ∈ (ofText t).tokens.map Token.site := List.mem_map_of_mem ht
    rw [sites, List.mem_filterMap] at mem
    obtain ⟨q, hq, found⟩ := mem
    obtain ⟨l, -, same⟩ := Option.map_eq_some_iff.1 found
    have span : q.span = token.span := congrArg Prod.snd same
    exact span ▸ start_lt_stop_of_mem_place hq

/-! ### Stretches of tokens and of segments -/

/-- What is left of a list between the first and the last element that a partial function
is defined on. -/
theorem exists_between {α β : Type} {f : α → Option β} {l : List α} {ys : List β}
    (h : l.filterMap f = ys) (ne : ys ≠ []) : ∃ before inner after, l = before ++ inner ++ after ∧
      inner.filterMap f = ys ∧ (∃ a, inner.head? = some a ∧ f a = ys.head?) ∧
      ∃ b, inner.getLast? = some b ∧ f b = ys.getLast? := by
  obtain ⟨y, rest, rfl⟩ := List.exists_cons_of_ne_nil ne
  obtain ⟨before, a, later, rfl, -, first, others⟩ := List.filterMap_eq_cons_iff.1 h
  -- Seen from the back, the same splitting finds the last element.
  have backward : (a :: later).reverse.filterMap f = (y :: rest).reverse := by
    rw [List.filterMap_reverse, List.filterMap_cons_some first, others]
  obtain ⟨z, zs, last⟩ : ∃ z zs, (y :: rest).reverse = z :: zs :=
    List.exists_cons_of_ne_nil (by simp)
  rw [last] at backward
  obtain ⟨after, b, front, split, -, final, inner⟩ := List.filterMap_eq_cons_iff.1 backward
  have forward : a :: later = front.reverse ++ [b] ++ after.reverse := by
    rw [← List.reverse_inj, split]
    simp
  have whole : y :: rest = zs.reverse ++ [z] := by
    rw [← List.reverse_inj, last]
    simp
  refine ⟨before, front.reverse ++ [b], after.reverse, ?_, ?_, ?_, ?_⟩
  · rw [forward, ← List.append_assoc before]
  · rw [List.filterMap_append, List.filterMap_reverse, inner, whole, List.filterMap_cons_some final]
    rfl
  · refine ⟨a, ?_, first⟩
    generalize front.reverse = start at forward
    cases start with
    | nil => exact congrArg List.head? forward.symm
    | cons c cs => exact congrArg List.head? forward.symm
  · exact ⟨b, List.getLast?_concat, by rw [final, whole, List.getLast?_concat]⟩

/-- **Neighbouring tokens are cut out of the text by neighbouring segments**, which begin
and end with a token; the span from the first to the last of the tokens is the place of
the text of these segments. -/
theorem exists_segments {t : Text} {w : List Token} (h : w <:+: (ofText t).tokens) (ne : w ≠ []) :
    ∃ before inner after : List Segment, Segment.segments t = before ++ inner ++ after ∧
      inner.filterMap Segment.lexeme? = w.map Token.lexeme ∧
      (∃ s, inner.head? = some s ∧ s.lexeme? = (w.map Token.lexeme).head?) ∧
      (∃ s, inner.getLast? = some s ∧ s.lexeme? = (w.map Token.lexeme).getLast?) ∧
      Token.Covers w ⟨Position.zero.after (before.flatMap Segment.text),
        Position.zero.after ((before ++ inner).flatMap Segment.text)⟩ := by
  obtain ⟨u, v, whole⟩ := h
  have sites := map_site_ofText t
  rw [← whole, List.map_append, List.map_append, eq_comm, List.filterMap_eq_append_iff] at sites
  obtain ⟨ps, qs, placed, front, back⟩ := sites
  obtain ⟨ps₁, ps₂, rfl, -, mid⟩ := List.filterMap_eq_append_iff.1 front
  obtain ⟨before, inner, after, rfl, found, ⟨a, head, first⟩, b, final, last⟩ :=
    exists_between mid (by simpa using ne)
  -- From here on `inner` holds the placed segments of the stretch, and their spans are
  -- read off by splitting the whole list at the first and at the last of them.
  have text : ∀ l : List PlacedSegment,
      (l.map (·.segment)).flatMap Segment.text = l.flatMap (·.segment.text) := fun l => by
    rw [List.flatMap_map]
  have spanOf : ∀ {q : PlacedSegment} {s : Option Token}, q.site? = s.map Token.site →
      ∀ token, s = some token → q.span = token.span := by
    rintro q _ site token rfl
    obtain ⟨l, -, same⟩ := Option.map_eq_some_iff.1 site
    exact congrArg Prod.snd same
  have lexemeOf : ∀ {q : PlacedSegment} {s : Option Token}, q.site? = s.map Token.site →
      q.segment.lexeme? = s.map Token.lexeme := by
    rintro q s site
    have lexemes := congrArg (Option.map Prod.fst) site
    rw [PlacedSegment.site?, Option.map_map, Option.map_map] at lexemes
    simpa [Function.comp_def, Token.site] using lexemes
  rw [List.head?_map] at first
  rw [List.getLast?_map] at last
  refine ⟨(ps₁ ++ before).map (·.segment), inner.map (·.segment), (after ++ qs).map (·.segment),
    ?_, ?_, ?_, ?_, ?_, ?_⟩
  · rw [← map_segment_place Position.zero (Segment.segments t), placed]
    simp
  · rw [List.filterMap_map]
    have lexemes := congrArg (List.map Prod.fst) found
    rw [List.map_filterMap, List.map_map] at lexemes
    simpa [Function.comp_def, PlacedSegment.site?, Option.map_map, Token.site] using lexemes
  · exact ⟨a.segment, by rw [List.head?_map, head]; rfl, by rw [List.head?_map, lexemeOf first]⟩
  · exact ⟨b.segment, by rw [List.getLast?_map, final]; rfl,
      by rw [List.getLast?_map, lexemeOf last]⟩
  · obtain ⟨token, rest, rfl⟩ := List.exists_cons_of_ne_nil ne
    refine ⟨token, rfl, ?_⟩
    obtain ⟨tail, rfl⟩ := List.head?_eq_some_iff.1 head
    have split : place Position.zero (Segment.segments t) =
        (ps₁ ++ before) ++ a :: (tail ++ after ++ qs) := by
      rw [placed]
      simp
    rw [← spanOf first token rfl, span_of_place_eq split, text]
  · obtain ⟨token, hlast⟩ : ∃ token, w.getLast? = some token :=
      ⟨_, List.getLast?_eq_some_getLast ne⟩
    refine ⟨token, hlast, ?_⟩
    obtain ⟨start, rfl⟩ := List.getLast?_eq_some_iff.1 final
    have split : place Position.zero (Segment.segments t) =
        (ps₁ ++ before ++ start) ++ b :: (after ++ qs) := by
      rw [placed]
      simp
    rw [← spanOf last token hlast, span_of_place_eq split, ← List.map_append,
      text (ps₁ ++ before ++ (start ++ [b])), List.append_assoc _ start]

end TokenStream
end ProtoAtlas
