/-
# Which token a comment belongs to

A comment belongs to one token of its text (`Comment.home`).  If the last token in front of
it ends on the line where the comment starts, it trails that token.  If not, or if there is
no token in front of it, it leads the next token, which may be the one at the end of the file.

A token carries the comments that belong to it, and no others
(`TokenStream.comments_are_attached_once`): those that lead it joined by line feeds, and so
those that trail it, without the empty ones in front.

Attaching goes through the segments once, with a token that may still get comments and with
comments that wait for a token.  What it keeps is described by the comments met so far
(`TokenStream.Keeps`): they are those of the last token and of the next one.  It also notes
whether a line feed has come since the last token.  A comment on the line where the token ends
has none in front of it, so only the lines count (`TokenStream.Ahead`).
-/

import ProtoAtlas.Proofs.Source.Placed

namespace ProtoAtlas

/-! ### Comments and their tokens -/

/-- A comment of a text: where it stands and what it says. -/
structure Comment where
  span : Span
  text : Text

/-- How a comment stands to its token. -/
inductive Comment.Side where
  | leading
  | trailing
  deriving DecidableEq

namespace Comment

/-- The token of a comment behind some tokens, given by their spans: the last of them, or
the next one.  Tokens are counted from zero. -/
def homeBehind (c : Comment) (tokens : List Span) : Side × Nat :=
  match tokens.getLast? with
  | none => (.leading, 0)
  | some last =>
    if last.stop.line = c.span.start.line then (.trailing, tokens.length - 1)
    else (.leading, tokens.length)

/-- The token of a comment among the tokens of its text. -/
def home (c : Comment) (tokens : List Token) : Side × Nat :=
  c.homeBehind ((tokens.map (·.span)).filter (·.stop ≤ c.span.start))

/-- What the comments say that belong to a token on a side. -/
def share (home : Comment → Side × Nat) (cs : List Comment) (side : Side) (token : Nat) :
    List Text :=
  (cs.filter fun c => home c = (side, token)).map (·.text)

/-- The comments in front of a token as one text. -/
def joinedLeading (texts : List Text) : Option Text :=
  if texts = [] then none else some (Text.join "\n" texts)

/-- The comments behind a token as one text; empty ones at the front are left out. -/
def joinedTrailing (texts : List Text) : Option Text :=
  if texts = [] then none else some (Text.join "\n" (texts.dropWhile (·.isEmpty)))

end Comment

/-- The comment that a segment is. -/
def PlacedSegment.comment? (p : PlacedSegment) : Option Comment :=
  p.segment.comment?.map fun text => ⟨p.span, text⟩

/-- The comments of a text, in source order. -/
def TokenStream.comments (t : Text) : List Comment :=
  (place Position.zero (Segment.segments t)).filterMap PlacedSegment.comment?

/-! ### Joining comments -/

theorem Text.join_concat {separator : Text} {parts : List Text} (h : parts ≠ []) (last : Text) :
    join separator (parts ++ [last]) = join separator parts ++ separator ++ last := by
  induction parts with
  | nil => exact absurd rfl h
  | cons part parts ih =>
    cases parts with
    | nil => simp [join, List.intercalate]
    | cons next parts =>
      have tail := ih (List.cons_ne_nil next parts)
      simp only [join, List.cons_append, List.intercalate_cons_cons] at tail ⊢
      rw [tail]
      simp

namespace Token

theorem joinLeading_eq (texts : List Text) : joinLeading texts = Comment.joinedLeading texts := by
  cases texts <;> rfl

@[simp] theorem leading_addTrailing (t : Token) (text : Text) :
    (t.addTrailing text).leading = t.leading := by
  unfold addTrailing
  split <;> rfl

@[simp] theorem span_addTrailing (t : Token) (text : Text) :
    (t.addTrailing text).span = t.span := by
  unfold addTrailing
  split <;> rfl

/-- **A further comment behind a token is joined to those before it.** -/
theorem trailing_addTrailing {t : Token} {texts : List Text}
    (h : t.trailing = Comment.joinedTrailing texts) (text : Text) :
    (t.addTrailing text).trailing = Comment.joinedTrailing (texts ++ [text]) := by
  have alone : Text.join "\n" ([text].dropWhile (·.isEmpty)) = text := by
    cases text with
    | nil => rfl
    | cons c cs => simp [Text.join]
  rw [Comment.joinedTrailing, if_neg (by simp), List.dropWhile_append]
  cases rest : texts.dropWhile (·.isEmpty) with
  | nil =>
    -- Nothing has been said so far, so the comment stands alone.
    have silent : t.trailing = none ∨ t.trailing = some [] := by
      rw [h, Comment.joinedTrailing, rest]
      split
      · exact Or.inl rfl
      · exact Or.inr rfl
    rw [if_pos List.isEmpty_nil, alone, addTrailing]
    rcases silent with silent | silent <;> rw [silent]
  | cons first others =>
    have said : first ≠ [] := by
      have head := List.head?_dropWhile_not (·.isEmpty) texts
      rw [rest] at head
      simpa using head
    have ne : texts ≠ [] := by
      rintro rfl
      cases rest
    obtain ⟨c, cs, rfl⟩ := List.exists_cons_of_ne_nil said
    obtain ⟨cs', joined⟩ : ∃ cs', Text.join "\n" ((c :: cs) :: others) = c :: cs' := by
      cases others with
      | nil => exact ⟨cs, by simp [Text.join]⟩
      | cons next others => exact ⟨_, by rw [Text.join, List.intercalate_cons_cons]; rfl⟩
    rw [Comment.joinedTrailing, if_neg ne, rest, joined] at h
    rw [if_neg (by simp), Text.join_concat (List.cons_ne_nil _ _), joined, addTrailing, h]

end Token

/-! ### Attaching -/

namespace Comment

variable {home : Comment → Side × Nat} {cs : List Comment} {side : Side} {n : Nat}

theorem share_append (ds : List Comment) :
    share home (cs ++ ds) side n = share home cs side n ++ share home ds side n := by
  simp [share]

theorem share_singleton (c : Comment) :
    share home [c] side n = if home c = (side, n) then [c.text] else [] := by
  unfold share
  split
  · next same => simp [same]
  · next other => simp [other]

theorem share_eq_nil (h : ∀ c ∈ cs, home c ≠ (side, n)) : share home cs side n = [] := by
  simpa [share] using h

/-- A comment behind some tokens belongs to the last of them or to the next one. -/
theorem length_le_homeBehind (c : Comment) (tokens : List Span) :
    tokens.length ≤ (c.homeBehind tokens).2 + 1 := by
  unfold homeBehind
  split
  · next none =>
    rw [List.getLast?_eq_none_iff.1 none]
    exact Nat.zero_le _
  · split <;> dsimp only <;> omega

end Comment

namespace TokenStream

open Comment (Side share)

/-- A token carries the comments that belong to it, out of some comments. -/
structure Carries (home : Comment → Side × Nat) (cs : List Comment) (n : Nat) (t : Token) :
    Prop where
  leading : t.leading = Comment.joinedLeading (share home cs .leading n)
  trailing : t.trailing = Comment.joinedTrailing (share home cs .trailing n)

/-- What is kept behind some tokens, given by their spans, when the comments `cs` have been
met: the last token with its comments, and the comments of the next one. -/
structure Keeps (home : Comment → Side × Nat) (tokens : List Span) (cs : List Comment)
    (last : Option Token) (pending : List Text) : Prop where
  span : last.map (·.span) = tokens.getLast?
  carries : ∀ t ∈ last, Carries home cs (tokens.length - 1) t
  waiting : pending = share home cs .leading tokens.length
  bound : ∀ c ∈ cs, (home c).2 ≤ tokens.length ∧
    ((home c).1 = .trailing → (home c).2 < tokens.length)

section Steps

variable {home : Comment → Side × Nat} {tokens : List Span} {cs ds : List Comment} {n : Nat}
variable {last : Option Token} {t : Token} {pending : List Text} {c : Comment}

/-- Comments of other tokens change nothing. -/
theorem Carries.append (h : Carries home cs n t) (others : ∀ c ∈ ds, (home c).2 ≠ n) :
    Carries home (cs ++ ds) n t := by
  have none : ∀ side, share home ds side n = [] := fun side =>
    Comment.share_eq_nil fun c hc same => others c hc (congrArg Prod.snd same)
  constructor
  · rw [Comment.share_append, none, List.append_nil]
    exact h.leading
  · rw [Comment.share_append, none, List.append_nil]
    exact h.trailing

theorem Keeps.length_pos (h : Keeps home tokens cs last pending) (there : t ∈ last) :
    0 < tokens.length := by
  have final := h.span
  rw [Option.mem_def.1 there] at final
  exact List.length_pos_iff.2 fun none => by rw [none] at final; cases final

/-- A token takes the comments that wait for it. -/
theorem Keeps.token (h : Keeps home tokens cs last pending) (kind : TokenKind) (text : Text)
    (span : Span) :
    Keeps home (tokens ++ [span]) cs (some ⟨kind, text, span, Token.joinLeading pending, none⟩)
      [] where
  span := by simp
  carries := by
    rintro t ⟨⟩
    rw [List.length_append, List.length_singleton, Nat.add_sub_cancel]
    constructor
    · rw [Token.joinLeading_eq, h.waiting]
    · rw [Comment.share_eq_nil fun c hc same => ?_]
      · rfl
      · have late := (h.bound c hc).2 (by rw [same])
        rw [same] at late
        exact Nat.lt_irrefl _ late
  waiting := by
    rw [Comment.share_eq_nil fun c hc same => ?_]
    have early := (h.bound c hc).1
    rw [same, List.length_append, List.length_singleton] at early
    exact Nat.not_succ_le_self _ early
  bound := fun c hc => by
    have bound := h.bound c hc
    rw [List.length_append, List.length_singleton]
    exact ⟨Nat.le_succ_of_le bound.1, fun side => Nat.lt_succ_of_lt (bound.2 side)⟩

/-- A comment waits for the next token. -/
theorem Keeps.wait (h : Keeps home tokens cs last pending)
    (here : home c = (.leading, tokens.length)) :
    Keeps home tokens (cs ++ [c]) last (pending ++ [c.text]) where
  span := h.span
  carries := fun t ht => by
    refine (h.carries t ht).append fun c' hc' => ?_
    have behind := h.length_pos ht
    rw [List.mem_singleton.1 hc', here]
    dsimp only
    omega
  waiting := by rw [h.waiting, Comment.share_append, Comment.share_singleton, if_pos here]
  bound := fun c' hc' => by
    rcases List.mem_append.1 hc' with hc' | hc'
    · exact h.bound c' hc'
    · rw [List.mem_singleton.1 hc', here]
      exact ⟨Nat.le_refl _, nofun⟩

/-- A comment is given to the last token. -/
theorem Keeps.trail (h : Keeps home tokens cs (some t) pending)
    (here : home c = (.trailing, tokens.length - 1)) :
    Keeps home tokens (cs ++ [c]) (some (t.addTrailing c.text)) pending where
  span := by
    rw [Option.map_some, Token.span_addTrailing]
    exact h.span
  carries := by
    rintro t' ⟨⟩
    have before := h.carries t rfl
    constructor
    · rw [Token.leading_addTrailing, before.leading, Comment.share_append,
        Comment.share_singleton, if_neg (by simp [here]), List.append_nil]
    · rw [Token.trailing_addTrailing before.trailing, Comment.share_append,
        Comment.share_singleton, if_pos here]
  waiting := by
    rw [Comment.share_append, Comment.share_singleton, if_neg (by simp [here]), List.append_nil]
    exact h.waiting
  bound := fun c' hc' => by
    rcases List.mem_append.1 hc' with hc' | hc'
    · exact h.bound c' hc'
    · have behind := h.length_pos rfl
      rw [List.mem_singleton.1 hc', here]
      dsimp only
      omega

end Steps

/-- The spans of the tokens among some segments. -/
def tokenSpans (ps : List PlacedSegment) : List Span :=
  (ps.filterMap PlacedSegment.site?).map (·.2)

/-- Each comment among some segments has the home that the tokens in front of it give it. -/
def Homely (home : Comment → Side × Nat) (tokens : List Span) (ps : List PlacedSegment) : Prop :=
  ∀ before p after, ps = before ++ p :: after → ∀ c ∈ p.comment?,
    home c = c.homeBehind (tokens ++ tokenSpans before)

section Run

variable {home : Comment → Side × Nat} {tokens : List Span} {p : PlacedSegment}
variable {ps : List PlacedSegment}

theorem tokenSpans_append (ps qs : List PlacedSegment) :
    tokenSpans (ps ++ qs) = tokenSpans ps ++ tokenSpans qs := by
  simp [tokenSpans]

theorem Homely.head (h : Homely home tokens (p :: ps)) {c : Comment} (hc : c ∈ p.comment?) :
    home c = c.homeBehind tokens := by
  have here := h [] p ps rfl c hc
  rwa [tokenSpans, List.filterMap_nil, List.map_nil, List.append_nil] at here

theorem Homely.tail (h : Homely home tokens (p :: ps)) :
    Homely home (tokens ++ tokenSpans [p]) ps := by
  intro before q after split c hc
  rw [List.append_assoc, ← tokenSpans_append]
  exact h (p :: before) q after (by rw [split]; rfl) c hc

/-- The comments of some segments belong to the last of the tokens before, or to later ones. -/
theorem Homely.length_le (h : Homely home tokens ps) :
    ∀ c ∈ ps.filterMap PlacedSegment.comment?, tokens.length ≤ (home c).2 + 1 := by
  intro c hc
  obtain ⟨p, hp, here⟩ := List.mem_filterMap.1 hc
  obtain ⟨before, after, split⟩ := List.append_of_mem hp
  have behind := c.length_le_homeBehind (tokens ++ tokenSpans before)
  rw [← h before p after split c here, List.length_append] at behind
  omega

/-! The three steps of attaching, by what the first segment is. -/

theorem attach_token (near : Bool) (last : Option Token) (pending : List Text) {kind : TokenKind}
    (shape : p.segment.shape = .token kind) :
    attach near last pending (p :: ps) =
      let behind :=
        attach true (some ⟨kind, p.segment.text, p.span, Token.joinLeading pending, none⟩) [] ps
      (last.toList ++ behind.1, behind.2) := by
  rw [attach.eq_def]
  dsimp only
  split
  · next kind' shape' =>
    cases shape.symm.trans shape'
    rfl
  · next other => exact absurd shape (other kind)

theorem attach_silent (near : Bool) (last : Option Token) (pending : List Text)
    (idle : p.site? = none) (silent : p.comment? = none) :
    attach near last pending (p :: ps) =
      attach (near && !p.segment.isLineFeed) last pending ps := by
  have none : p.segment.comment? = none := Option.map_eq_none_iff.1 silent
  rw [attach.eq_def]
  dsimp only
  split
  · next kind shape => simp [PlacedSegment.site?, Segment.lexeme?, shape] at idle
  · rw [none]

theorem attach_comment (near : Bool) (last : Option Token) (pending : List Text) {c : Comment}
    (here : p.comment? = some c) :
    attach near last pending (p :: ps) =
      match last with
      | none => attach near none (pending ++ [c.text]) ps
      | some t =>
        if near ∧ t.span.stop.line = c.span.start.line then
          attach near (some (t.addTrailing c.text)) pending ps
        else attach near (some t) (pending ++ [c.text]) ps := by
  obtain ⟨text, said, rfl⟩ := Option.map_eq_some_iff.1 here
  rw [attach.eq_def]
  dsimp only
  split
  · next kind shape => simp [Segment.comment?, shape] at said
  · rw [said]
    cases last <;> rfl

/-- The last token ends at a position or before it, and on the line of the position only if no
line feed has come since. -/
structure Ahead (near : Bool) (last : Option Token) (q : Position) : Prop where
  behind : ∀ t ∈ last, t.span.stop ≤ q
  near : ∀ t ∈ last, t.span.stop.line = q.line → near = true

namespace Ahead

variable {near : Bool} {last : Option Token} {q : Position}

theorem line_le (h : Ahead near last q) {t : Token} (ht : t ∈ last) :
    t.span.stop.line ≤ q.line := by
  have := h.behind t ht
  rw [Position.le_iff] at this
  omega

/-- **Lines tell as much as the note does**: behind a token, on its last line, no line feed has
come. -/
theorem and_line_iff (h : Ahead near last q) {t : Token} (ht : t ∈ last) :
    (near = true ∧ t.span.stop.line = q.line) ↔ t.span.stop.line = q.line :=
  ⟨fun both => both.2, fun line => ⟨h.near t ht line, line⟩⟩

/-- A segment that leaves the note as it is. -/
theorem pass (h : Ahead near last q) (text : Text) : Ahead near last (q.after text) where
  behind := fun t ht => Position.le_trans (h.behind t ht) (Position.le_after q text)
  near := fun t ht line => by
    have early := h.line_le ht
    have later := Position.le_after q text
    rw [Position.le_iff] at later
    exact h.near t ht (by omega)

/-- A segment without a comment, which may be a line feed. -/
theorem silent (h : Ahead near last q) (s : Segment) :
    Ahead (near && !s.isLineFeed) last (q.after s.text) where
  behind := (h.pass s.text).behind
  near := fun t ht line => by
    have kept := (h.pass s.text).near t ht line
    have early := h.line_le ht
    have other : s.isLineFeed = false := by
      rw [← Bool.not_eq_true]
      intro feed
      rw [Segment.isLineFeed, Bool.and_eq_true, decide_eq_true_eq, decide_eq_true_eq] at feed
      have next : (q.after s.text).line = q.line + 1 := by
        rw [feed.2]
        rfl
      omega
    rw [kept, other]
    rfl

/-- The comments of the last token do not matter. -/
theorem addTrailing {t : Token} (h : Ahead near (some t) q) (comment : Text) :
    Ahead near (some (t.addTrailing comment)) q := by
  constructor
  · rintro _ ⟨⟩
    rw [Token.span_addTrailing]
    exact h.behind t rfl
  · rintro _ ⟨⟩
    rw [Token.span_addTrailing]
    exact h.near t rfl

end Ahead

/-- What attaching gives from some segments on, behind some tokens and when the comments `cs`
have been met: every token with its comments, and what is left for the token behind them all.
The tokens are numbered from the one that is kept, or the next one, on. -/
structure Attaches (home : Comment → Side × Nat) (tokens : List Span) (cs : List Comment)
    (near : Bool) (last : Option Token) (pending : List Text) (ps : List PlacedSegment) :
    Prop where
  carries : ∀ n t, (attach near last pending ps).1[n]? = some t →
    Carries home (cs ++ ps.filterMap PlacedSegment.comment?)
      (tokens.length - last.toList.length + n) t
  left : ∃ final, Keeps home (tokens ++ tokenSpans ps) (cs ++ ps.filterMap PlacedSegment.comment?)
    final (attach near last pending ps).2

variable {cs : List Comment} {near : Bool} {last : Option Token} {pending : List Text}

theorem attaches_nil (keeps : Keeps home tokens cs last pending) :
    Attaches home tokens cs near last pending [] := by
  have spans : tokens ++ tokenSpans [] = tokens := List.append_nil _
  refine ⟨fun n t ht => ?_, last, ?_⟩
  · rw [List.filterMap_nil, List.append_nil]
    rw [attach] at ht
    cases last with
    | none => cases ht
    | some t' =>
      cases n with
      | zero =>
        cases ht
        exact keeps.carries t rfl
      | succ n => cases ht
  · rwa [spans, List.filterMap_nil, List.append_nil, attach]

/-- A token gives out the one that was kept before it. -/
theorem Attaches.token {kind : TokenKind} (shape : p.segment.shape = .token kind)
    (keeps : Keeps home tokens cs last pending) (homely : Homely home (tokens ++ [p.span]) ps)
    (h : Attaches home (tokens ++ [p.span]) cs true
      (some ⟨kind, p.segment.text, p.span, Token.joinLeading pending, none⟩) [] ps) :
    Attaches home tokens cs near last pending (p :: ps) := by
  have silent : p.comment? = none := by simp [PlacedSegment.comment?, Segment.comment?, shape]
  have spans : tokens ++ tokenSpans (p :: ps) = tokens ++ [p.span] ++ tokenSpans ps := by
    simp [tokenSpans, PlacedSegment.site?, Segment.lexeme?, shape]
  have carries := h.carries
  have late := homely.length_le
  simp only [List.length_append, List.length_singleton, Option.toList_some,
    Nat.add_sub_cancel] at carries late
  constructor
  · intro n t ht
    rw [attach_token near last pending shape] at ht
    rw [List.filterMap_cons_none silent]
    cases last with
    | none => exact carries n t ht
    | some t' =>
      have behind := keeps.length_pos rfl
      cases n with
      | zero =>
        cases ht
        refine (keeps.carries t rfl).append fun c hc => ?_
        have := late c hc
        omega
      | succ n =>
        have number : tokens.length - (some t').toList.length + (n + 1) = tokens.length + n := by
          rw [Option.toList_some, List.length_singleton]
          omega
        rw [number]
        exact carries n t ht
  · rw [List.filterMap_cons_none silent, spans, attach_token near last pending shape]
    exact h.left

/-- A segment that is neither a token nor a comment changes nothing. -/
theorem Attaches.silent (idle : p.site? = none) (silent : p.comment? = none)
    (h : Attaches home tokens cs (near && !p.segment.isLineFeed) last pending ps) :
    Attaches home tokens cs near last pending (p :: ps) := by
  have spans : tokenSpans (p :: ps) = tokenSpans ps := by simp [tokenSpans, idle]
  constructor
  · rw [List.filterMap_cons_none silent, attach_silent near last pending idle silent]
    exact h.carries
  · rw [List.filterMap_cons_none silent, attach_silent near last pending idle silent, spans]
    exact h.left

/-- A comment is given to the token that is kept, or waits for the next one. -/
theorem Attaches.comment (idle : p.site? = none) {c : Comment} (here : p.comment? = some c)
    {last' : Option Token} {pending' : List Text}
    (step : attach near last pending (p :: ps) = attach near last' pending' ps)
    (kept : last'.toList.length = last.toList.length)
    (h : Attaches home tokens (cs ++ [c]) near last' pending' ps) :
    Attaches home tokens cs near last pending (p :: ps) := by
  have spans : tokenSpans (p :: ps) = tokenSpans ps := by simp [tokenSpans, idle]
  have met : cs ++ (p :: ps).filterMap PlacedSegment.comment? =
      cs ++ [c] ++ ps.filterMap PlacedSegment.comment? := by
    rw [List.filterMap_cons_some here, List.append_assoc, List.singleton_append]
  constructor
  · rw [met, step, ← kept]
    exact h.carries
  · rw [met, step, spans]
    exact h.left

/-- **Attaching gives every token the comments that belong to it.** -/
theorem attaches {q : Position} {ss : List Segment} (keeps : Keeps home tokens cs last pending)
    (homely : Homely home tokens (place q ss)) (ahead : Ahead near last q) :
    Attaches home tokens cs near last pending (place q ss) := by
  induction ss generalizing q tokens cs near last pending with
  | nil => exact attaches_nil keeps
  | cons s rest ih =>
    let p : PlacedSegment := ⟨s, ⟨q, q.after s.text⟩⟩
    change Homely home tokens (p :: place (q.after s.text) rest) at homely
    change Attaches home tokens cs near last pending (p :: place (q.after s.text) rest)
    have tail := homely.tail
    by_cases token : ∃ kind, p.segment.shape = .token kind
    · obtain ⟨kind, shape⟩ := token
      have alone : tokenSpans [p] = [p.span] := by
        simp [tokenSpans, PlacedSegment.site?, Segment.lexeme?, shape]
      rw [alone] at tail
      refine .token shape keeps tail (ih (keeps.token kind p.segment.text p.span) tail ⟨?_, ?_⟩)
      · rintro _ ⟨⟩
        exact Position.le_refl _
      · exact fun _ _ _ => rfl
    · have idle : p.site? = none := by
        unfold PlacedSegment.site? Segment.lexeme?
        split
        · next kind shape => exact absurd ⟨kind, shape⟩ token
        · rfl
      have alone : tokenSpans [p] = [] := by simp [tokenSpans, idle]
      rw [alone, List.append_nil] at tail
      cases here : p.comment? with
      | none => exact .silent idle here (ih keeps tail (ahead.silent s))
      | some c =>
        have belongs := homely.head here
        have step : attach near last pending (p :: place (q.after s.text) rest) = _ :=
          attach_comment near last pending here
        have start : c.span.start = q := by
          obtain ⟨text, -, rfl⟩ := Option.map_eq_some_iff.1 here
          rfl
        unfold Comment.homeBehind at belongs
        rw [← keeps.span] at belongs
        cases last with
        | none =>
          have none : tokens = [] := List.getLast?_eq_none_iff.1 keeps.span.symm
          have waits : home c = (.leading, tokens.length) := by rw [none]; exact belongs
          exact .comment idle here step rfl (ih (keeps.wait waits) tail (ahead.pass s.text))
        | some t =>
          dsimp only [Option.map_some] at belongs step
          rw [start] at belongs
          simp only [start, ahead.and_line_iff rfl] at step
          split at belongs
          · next line =>
            rw [if_pos line] at step
            exact .comment idle here step rfl
              (ih (keeps.trail belongs) tail ((ahead.pass s.text).addTrailing c.text))
          · next line =>
            rw [if_neg line] at step
            exact .comment idle here step rfl (ih (keeps.wait belongs) tail (ahead.pass s.text))

end Run

/-! ### The tokens of a text -/

theorem tokenSpans_eq (t : Text) :
    tokenSpans (place Position.zero (Segment.segments t)) = (ofText t).tokens.map (·.span) := by
  rw [tokenSpans, ← map_site_ofText, List.map_map]
  rfl

theorem exists_of_mem_tokenSpans {ps : List PlacedSegment} {s : Span} (h : s ∈ tokenSpans ps) :
    ∃ p ∈ ps, p.span = s := by
  obtain ⟨site, hsite, rfl⟩ := List.mem_map.1 h
  obtain ⟨p, hp, found⟩ := List.mem_filterMap.1 hsite
  obtain ⟨l, -, rfl⟩ := Option.map_eq_some_iff.1 found
  exact ⟨p, hp, rfl⟩

/-- **The tokens that end before a comment are those of the segments in front of it.** -/
theorem homely_home (t : Text) : Homely (fun c => c.home (ofText t).tokens) []
    (place Position.zero (Segment.segments t)) := by
  intro before p after split c hc
  obtain ⟨text, -, rfl⟩ := Option.map_eq_some_iff.1 hc
  have ordered := pairwise_place Position.zero (Segment.segments t)
  rw [split, List.pairwise_append] at ordered
  obtain ⟨-, behind, across⟩ := ordered
  have proper : ∀ q ∈ p :: after, q.span.start < q.span.stop := fun q hq =>
    start_lt_stop_of_mem_place (split ▸ List.mem_append_right before hq)
  have front : ∀ s ∈ tokenSpans before, s.stop ≤ p.span.start := by
    intro s hs
    obtain ⟨q, hq, rfl⟩ := exists_of_mem_tokenSpans hs
    exact across q hq p List.mem_cons_self
  have back : ∀ s ∈ tokenSpans (p :: after), ¬s.stop ≤ p.span.start := by
    intro s hs early
    obtain ⟨q, hq, rfl⟩ := exists_of_mem_tokenSpans hs
    have here := proper p List.mem_cons_self
    have there := proper q hq
    rw [Position.le_iff] at early
    rw [Position.lt_iff] at here there
    rcases List.mem_cons.1 hq with rfl | hq
    · omega
    · have next := (List.pairwise_cons.1 behind).1 q hq
      rw [Position.le_iff] at next
      omega
  dsimp only
  rw [Comment.home, ← tokenSpans_eq, split, tokenSpans_append, List.filter_append,
    List.filter_eq_self.2 fun s hs => decide_eq_true (front s hs),
    List.filter_eq_nil_iff.2 fun s hs => by simpa using back s hs, List.append_nil,
    List.nil_append]

end TokenStream
end ProtoAtlas
