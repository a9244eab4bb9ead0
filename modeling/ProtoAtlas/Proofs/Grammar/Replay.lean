/-
# Aggregates replayed as text

The value of an aggregate is a text: its tokens with single blanks between them, where
neighbouring strings are one string, quoted anew.  This text says the same as the tokens
it was made of (`aggregate_replays`):

* lexed again, it gives the same lexemes, each maximal run of strings as one string with
  the values of the run one behind the other (`Lexeme.StringsMerged`);
* read again, it gives itself.

`Lexeme.joined` is what `Rule.replay` does to lexemes.  Every lexeme it gives is
separable: one that was not the last token of its text was cut off there in front of
something, the closing brace is a mark, and a string quoted anew is closed.  Joining a
second time changes nothing (`Lexeme.joined_joined`), because the value of a quoted text
is the text.
-/

import ProtoAtlas.Proofs.Grammar.Run
import ProtoAtlas.Proofs.Source.Respaced

namespace ProtoAtlas

/-! ### Runs of strings -/

namespace Lexeme

/-- Each maximal run of strings has become one string, whose value is the values of the run
one behind the other; every other lexeme stays. -/
inductive StringsMerged : List Lexeme → List Lexeme → Prop
  | nil : StringsMerged [] []
  | keep {l : Lexeme} {ls ms : List Lexeme} (other : l.kind ≠ .string)
      (tail : StringsMerged ls ms) : StringsMerged (l :: ls) (l :: ms)
  | run {strings ls ms : List Lexeme} {w : Lexeme} (ne : strings ≠ [])
      (all : ∀ l ∈ strings, l.kind = .string) (maximal : ∀ l ∈ ls.head?, l.kind ≠ .string)
      (string : w.kind = .string)
      (value : Literal.stringValue w.text = strings.flatMap fun l => Literal.stringValue l.text)
      (tail : StringsMerged ls ms) : StringsMerged (strings ++ ls) (w :: ms)

/-- Lexemes with each run of strings quoted anew as one string, where `pending` are the
values of the strings just before. -/
def joined (pending : List Text) : List Lexeme → List Lexeme
  | [] => []
  | l :: ls =>
    if l.kind = .string then joined (pending ++ [Literal.stringValue l.text]) ls
    else if pending.isEmpty then l :: joined [] ls
    else ⟨.string, Literal.quote pending.flatten⟩ :: l :: joined [] ls

theorem joined_string {l : Lexeme} (h : l.kind = .string) (pending : List Text)
    (ls : List Lexeme) :
    joined pending (l :: ls) = joined (pending ++ [Literal.stringValue l.text]) ls := by
  rw [joined, if_pos h]

theorem joined_other {l : Lexeme} (h : l.kind ≠ .string) (ls : List Lexeme) :
    joined [] (l :: ls) = l :: joined [] ls := by
  rw [joined, if_neg h]
  rfl

theorem joined_pending {l : Lexeme} (h : l.kind ≠ .string) {pending : List Text}
    (ne : pending ≠ []) (ls : List Lexeme) :
    joined pending (l :: ls) =
      ⟨.string, Literal.quote pending.flatten⟩ :: l :: joined [] ls := by
  rw [joined, if_neg h, if_neg (by simpa using ne)]

/-- A lexeme that is no string ends the run in front of it. -/
theorem StringsMerged.close {strings ls : List Lexeme} {l : Lexeme}
    (all : ∀ l ∈ strings, l.kind = .string) (other : l.kind ≠ .string)
    (tail : StringsMerged ls (joined [] ls)) :
    StringsMerged (strings ++ l :: ls)
      (joined (strings.map fun l => Literal.stringValue l.text) (l :: ls)) := by
  cases strings with
  | nil =>
    rw [List.map_nil, joined_other other]
    exact .keep other tail
  | cons first more =>
    rw [joined_pending other (by simp)]
    refine .run (by simp) all ?_ rfl (Literal.stringValue_quote _) (.keep other tail)
    rintro l ⟨⟩
    exact other

/-- Joining merges the runs of strings, if the last lexeme is no string. -/
theorem stringsMerged_joined (strings ls : List Lexeme) {last : Lexeme}
    (all : ∀ l ∈ strings, l.kind = .string) (hl : last.kind ≠ .string) :
    StringsMerged (strings ++ (ls ++ [last]))
      (joined (strings.map fun l => Literal.stringValue l.text) (ls ++ [last])) := by
  induction ls generalizing strings with
  | nil => exact .close all hl .nil
  | cons l ls ih =>
    by_cases string : l.kind = .string
    · have longer := ih (strings ++ [l]) (by
        intro l' hl'
        rcases List.mem_append.1 hl' with hl' | hl'
        · exact all l' hl'
        · rwa [List.mem_singleton.1 hl'])
      rw [List.cons_append, joined_string string]
      rwa [List.append_assoc, List.singleton_append, List.map_append, List.map_singleton] at longer
    · exact .close all string (ih [] (by simp))

/-- **Joining twice is joining once.** -/
theorem joined_joined (pending : List Text) (ls : List Lexeme) :
    joined [] (joined pending ls) = joined pending ls := by
  induction ls generalizing pending with
  | nil => rfl
  | cons l ls ih =>
    by_cases string : l.kind = .string
    · rw [joined_string string]
      exact ih _
    · by_cases none : pending = []
      · rw [none, joined_other string, joined_other string, ih]
      · rw [joined_pending string none, joined_string rfl, joined_pending string (by simp), ih,
          List.nil_append, List.flatten_singleton, Literal.stringValue_quote]

theorem mem_joined {pending : List Text} {ls : List Lexeme} {m : Lexeme}
    (h : m ∈ joined pending ls) : m ∈ ls ∨ ∃ t, m = ⟨.string, Literal.quote t⟩ := by
  induction ls generalizing pending with
  | nil => cases h
  | cons l ls ih =>
    have later : ∀ {pending}, m ∈ joined pending ls →
        m ∈ l :: ls ∨ ∃ t, m = ⟨.string, Literal.quote t⟩ :=
      fun h => (ih h).imp_left (List.mem_cons_of_mem l)
    rw [joined] at h
    split_ifs at h with string none
    · exact later h
    · rcases List.mem_cons.1 h with rfl | h
      · exact Or.inl List.mem_cons_self
      · exact later h
    · rcases List.mem_cons.1 h with rfl | h
      · exact Or.inr ⟨_, rfl⟩
      · rcases List.mem_cons.1 h with rfl | h
        · exact Or.inl List.mem_cons_self
        · exact later h

/-! ### Separable lexemes of a text -/

/-- What is cut off in front of every blank is separable. -/
theorem separable_of_cutBefore {l : Lexeme} (h : ∀ rest : Text, rest.Parted → l.CutBefore rest) :
    l.Separable := by
  obtain ⟨c, cs, text, -⟩ := h [] Text.parted_nil
  refine ⟨c, cs, text, fun rest apart => ?_⟩
  have parted : rest.Parted := by
    rcases apart with rfl | ⟨rest, rfl⟩
    · exact Text.parted_nil
    · rintro b ⟨⟩
      decide
  obtain ⟨d, ds, text', cut⟩ := h rest parted
  obtain ⟨rfl, rfl⟩ := List.cons.inj (text.symm.trans text')
  exact cut

/-- Only the last of separate lexemes may need the end of the text. -/
theorem Separate.separable_of_mem {ls ms : List Lexeme} {m : Lexeme}
    (h : Separate (ls ++ m :: ms)) : ∀ l ∈ ls, l.Separable := by
  induction ls with
  | nil => simp
  | cons l ls ih =>
    obtain ⟨next, more, split⟩ : ∃ next more, ls ++ m :: ms = next :: more :=
      List.exists_cons_of_ne_nil (by simp)
    rw [List.cons_append, split] at h
    cases h with
    | more here tail =>
      rw [split] at ih
      exact List.forall_mem_cons.2 ⟨separable_of_cutBefore here, ih tail⟩

end Lexeme

/-! ### Blocks -/

namespace Token

/-- A brace, what it encloses, and the brace that closes it. -/
def IsBlock (ts : List Token) : Prop :=
  ∃ brace inner close, ts = brace :: (inner ++ [close]) ∧ brace.kind = .leftBrace ∧
    close.kind = .rightBrace ∧ openAfter 0 inner = some 0

theorem blockLength?_close {t : Token} (h : t.kind = .rightBrace) (ts : List Token) :
    blockLength? 0 (t :: ts) = some 1 := by
  simp [blockLength?, h]

theorem blockLength?_right {t : Token} (h : t.kind = .rightBrace) (depth : Nat)
    (ts : List Token) :
    blockLength? (depth + 1) (t :: ts) = (blockLength? depth ts).map (1 + ·) := by
  simp [blockLength?, h]

theorem blockLength?_left {t : Token} (h : t.kind = .leftBrace) (depth : Nat) (ts : List Token) :
    blockLength? depth (t :: ts) = (blockLength? (depth + 1) ts).map (1 + ·) := by
  simp [blockLength?, h]

theorem blockLength?_plain {t : Token} (h : t.IsPlain) (depth : Nat) (ts : List Token) :
    blockLength? depth (t :: ts) = (blockLength? depth ts).map (1 + ·) := by
  simp [blockLength?, h.1, h.2]

theorem blockLength?_of_openAfter {depth : Nat} {inner : List Token}
    (closed : openAfter depth inner = some 0) {close : Token} (right : close.kind = .rightBrace)
    (rest : List Token) :
    blockLength? depth (inner ++ close :: rest) = some (inner.length + 1) := by
  fun_induction openAfter depth inner with
  | case1 depth =>
    cases closed
    exact blockLength?_close right rest
  | case2 => cases closed
  | case3 t ts isRight d ih =>
    rw [List.cons_append, blockLength?_right isRight, ih closed, Option.map_some, Nat.add_comm]
    rfl
  | case4 depth t ts _ left ih =>
    rw [List.cons_append, blockLength?_left left, ih closed, Option.map_some, Nat.add_comm]
    rfl
  | case5 depth t ts notRight notLeft ih =>
    rw [List.cons_append, blockLength?_plain ⟨notLeft, notRight⟩, ih closed, Option.map_some,
      Nat.add_comm]
    rfl

theorem isBlock_of_blockLength? {brace : Token} {ts : List Token} (left : brace.kind = .leftBrace)
    (h : blockLength? 0 ts = some ts.length) : IsBlock (brace :: ts) := by
  obtain ⟨inner, close, rest, rfl, length, right, closed⟩ := split_of_blockLength? h
  have nothing : rest = [] := by
    rw [List.length_append, List.length_cons] at length
    exact List.eq_nil_of_length_eq_zero (by omega)
  exact ⟨brace, inner, close, by rw [nothing], left, right, closed⟩

/-- A block has balanced braces. -/
theorem IsBlock.openAfter_eq {ts : List Token} (h : IsBlock ts) : openAfter 0 ts = some 0 := by
  obtain ⟨brace, inner, close, rfl, left, right, closed⟩ := h
  rw [openAfter_left left, openAfter_append, openAfter_add closed 1, Option.bind_some,
    openAfter_right right]
  rfl

/-- Before its end the brace that starts a block is open. -/
theorem IsBlock.excess_take_pos {ts : List Token} (h : IsBlock ts) {k : Nat} (hk : 0 < k)
    (short : k < ts.length) : 0 < excess (ts.take k) := by
  obtain ⟨brace, inner, close, rfl, left, -, closed⟩ := h
  obtain ⟨n, rfl⟩ := Nat.exists_eq_add_one_of_ne_zero hk.ne'
  have inside : n ≤ inner.length := by
    rw [List.length_cons, List.length_append, List.length_singleton] at short
    omega
  have level := excess_take_nonneg (w := inner) (by rw [closed]; rfl) n
  rw [List.take_succ_cons, List.take_append_of_le_length inside, excess_cons, if_pos left]
  omega

/-- A block ends in no string, so all its strings are merged. -/
theorem IsBlock.stringsMerged {ts : List Token} (h : IsBlock ts) :
    Lexeme.StringsMerged (ts.map lexeme) (Lexeme.joined [] (ts.map lexeme)) := by
  obtain ⟨brace, inner, close, rfl, -, right, -⟩ := h
  have other : close.lexeme.kind ≠ .string := by simp [right]
  have merged := Lexeme.stringsMerged_joined [] ((brace :: inner).map lexeme) (by simp) other
  rw [← List.cons_append, List.map_append]
  exact merged

/-- A token more in front of a block that ends with the tokens. -/
theorem map_add_eq_length {o : Option Nat} {ts : List Token} {t : Token} :
    o.map (1 + ·) = some (t :: ts).length ↔ o = some ts.length := by
  cases o with
  | none => simp
  | some n =>
    rw [Option.map_some, Option.some.injEq, Option.some.injEq, List.length_cons]
    omega

/-- The tokens `us` close as many blocks as `ts` do, if `ts` end with the last of them. -/
def ClosesAs (ts us : List Token) : Prop :=
  ∀ depth, blockLength? depth ts = some ts.length → blockLength? depth us = some us.length

/-- A token of the same kind in front of both keeps them alike. -/
theorem ClosesAs.cons {t u : Token} {ts us : List Token} (kind : u.kind = t.kind)
    (empty : ts = [] → us = []) (tail : ClosesAs ts us) : ClosesAs (t :: ts) (u :: us) := by
  intro depth h
  by_cases right : t.kind = .rightBrace
  · cases depth with
    | zero =>
      rw [blockLength?_close right] at h
      rw [empty (List.eq_nil_of_length_eq_zero (by simpa using h))]
      exact blockLength?_close (kind.trans right) []
    | succ depth =>
      rw [blockLength?_right right, map_add_eq_length] at h
      rw [blockLength?_right (kind.trans right), map_add_eq_length]
      exact tail depth h
  · by_cases left : t.kind = .leftBrace
    · rw [blockLength?_left left, map_add_eq_length] at h
      rw [blockLength?_left (kind.trans left), map_add_eq_length]
      exact tail (depth + 1) h
    · rw [blockLength?_plain ⟨left, right⟩, map_add_eq_length] at h
      rw [blockLength?_plain ⟨kind ▸ left, kind ▸ right⟩, map_add_eq_length]
      exact tail depth h

/-- Joining strings keeps a block together. -/
theorem closesAs_joined {pending : List Text} {ts us : List Token}
    (lexemes : us.map lexeme = Lexeme.joined pending (ts.map lexeme)) : ClosesAs ts us := by
  induction ts generalizing pending us with
  | nil => exact fun _ h => absurd h (by simp [blockLength?])
  | cons t ts ih =>
    by_cases string : t.kind = .string
    · rw [List.map_cons, Lexeme.joined_string string] at lexemes
      intro depth h
      rw [blockLength?_plain (isPlain_of_kind string (by decide)), map_add_eq_length] at h
      exact ih lexemes depth h
    · -- The token itself, behind the string that may be pending.
      have here : ∀ {us}, us.map lexeme = t.lexeme :: Lexeme.joined [] (ts.map lexeme) →
          ClosesAs (t :: ts) us := by
        intro us lexemes
        obtain ⟨u, us, rfl, same, tail⟩ := List.map_eq_cons_iff.1 lexemes
        refine .cons (congrArg Lexeme.kind same) ?_ (ih tail)
        rintro rfl
        exact List.map_eq_nil_iff.1 tail
      by_cases none : pending = []
      · rw [none, List.map_cons, Lexeme.joined_other string] at lexemes
        exact here lexemes
      · rw [List.map_cons, Lexeme.joined_pending string none] at lexemes
        obtain ⟨u, us, rfl, same, tail⟩ := List.map_eq_cons_iff.1 lexemes
        have kind : u.kind = .string := congrArg Lexeme.kind same
        intro depth h
        rw [blockLength?_plain (isPlain_of_kind kind (by decide)), here tail depth h]
        exact map_add_eq_length.2 rfl

/-- Tokens that say the same as those of a block are a block. -/
theorem IsBlock.joined {ts us : List Token} (h : IsBlock ts)
    (lexemes : us.map lexeme = Lexeme.joined [] (ts.map lexeme)) : IsBlock us := by
  obtain ⟨brace, inner, close, rfl, left, right, closed⟩ := h
  rw [List.map_cons, Lexeme.joined_other (by simp [left])] at lexemes
  obtain ⟨u, us, rfl, same, tail⟩ := List.map_eq_cons_iff.1 lexemes
  refine isBlock_of_blockLength? ((congrArg Lexeme.kind same).trans left)
    (closesAs_joined tail 0 ?_)
  rw [blockLength?_of_openAfter closed right, List.length_append, List.length_singleton]

end Token

/-! ### Reading an aggregate -/

namespace Rule

/-- Replaying tokens is joining their lexemes. -/
theorem replay_eq (pending : List Text) (ts : List Token) :
    replay pending ts = (Lexeme.joined pending (ts.map Token.lexeme)).map (·.text) := by
  induction ts generalizing pending with
  | nil => rfl
  | cons t ts ih =>
    rw [replay, List.map_cons, Lexeme.joined, Token.lexeme_kind, Token.lexeme_text]
    split_ifs
    · exact ih _
    · rw [ih, List.map_cons, Token.lexeme_text]
    · rw [ih, List.map_cons, List.map_cons, Token.lexeme_text]

/-- The text of the tokens of an aggregate. -/
def replayed (ts : List Token) : Text :=
  Lexeme.spaced (Lexeme.joined [] (ts.map Token.lexeme))

theorem replayed_cons {brace : Token} (left : brace.kind = .leftBrace) (ts : List Token) :
    replayed (brace :: ts) = Text.join " " (brace.text :: replay [] ts) := by
  rw [replayed, Lexeme.spaced, List.map_cons, Lexeme.joined_other (by simp [left]), List.map_cons,
    replay_eq, Token.lexeme_text]

/-- A block in front of a reader is taken as an aggregate. -/
theorem run_aggregate_of_isBlock {r : Reader} {block more : List Token} (h : Token.IsBlock block)
    (rest : r.rest = block ++ more) :
    ∃ s, aggregate r = .ok (replayed block) s ∧ s.rest = more := by
  obtain ⟨brace, inner, close, rfl, left, right, closed⟩ := h
  rw [List.cons_append, List.append_assoc, List.singleton_append] at rest
  have current := Reader.current_of_rest rest
  have after : r.advance.rest = inner ++ close :: more := by
    simp only [Reader.advance, rest]
  have length := Token.blockLength?_of_openAfter closed right more
  rw [← after] at length
  have split : (inner ++ close :: more).take (inner.length + 1) = inner ++ [close] ∧
      (inner ++ close :: more).drop (inner.length + 1) = more := by
    rw [List.take_length_add_append, List.drop_length_add_append]
    exact ⟨rfl, rfl⟩
  refine ⟨r.advance.advanceBy (inner.length + 1), ?_, ?_⟩
  · rw [run_aggregate_closed (by rw [current, left]) length, after, split.1, current,
      replayed_cons left]
  · rw [Reader.rest_advanceBy, after, split.2]

/-- What an aggregate takes is a block, and its value is the text of the block. -/
theorem isBlock_of_run_aggregate {r s : Reader} (hr : r.Lexed) {v : Text}
    (h : aggregate r = .ok v s) :
    ∃ block, Token.IsBlock block ∧ r.Passes block s ∧ v = replayed block := by
  by_cases left : r.current.kind = .leftBrace
  · have brace := hr.passes_advance_current (by simp [left])
    cases found : Token.blockLength? 0 r.advance.rest with
    | none =>
      rw [run_aggregate_open left found] at h
      cases h
    | some n =>
      rw [run_aggregate_closed left found] at h
      obtain ⟨inner, close, more, split, rfl, right, closed⟩ := Token.split_of_blockLength? found
      have rest := r.advance.passes_advanceBy (inner.length + 1)
      have inside : r.advance.rest.take (inner.length + 1) = inner ++ [close] := by
        rw [split, List.take_length_add_append]
        rfl
      rw [inside] at rest h
      cases h
      refine ⟨_, ⟨_, inner, close, rfl, left, right, closed⟩, brace.trans rest, ?_⟩
      exact (replayed_cons left _).symm
  · rw [run_aggregate_refused left] at h
    cases h

/-- The text of a block is lexed to its lexemes with the strings joined. -/
theorem lexemes_replayed {source : Text} {block more : List Token} (h : Token.IsBlock block)
    (tokens : (TokenStream.ofText source).tokens = block ++ more) :
    (TokenStream.ofText (replayed block)).tokens.map Token.lexeme =
      Lexeme.joined [] (block.map Token.lexeme) := by
  obtain ⟨brace, inner, close, rfl, left, right, -⟩ := h
  have separate := Segment.separate_lexemes source
  rw [← TokenStream.map_lexeme_ofText, tokens, ← List.cons_append, List.append_assoc,
    List.singleton_append, List.map_append, List.map_cons] at separate
  have lexed : close.Lexed := Token.lexed_of_mem_tokens (by rw [tokens]; simp)
  have last : close.lexeme.Separable := by
    have mark : close.lexeme = ⟨.rightBrace, [CodePoint.ofChar '\x7d']⟩ := by
      have text : close.text = [CodePoint.ofChar '\x7d'] :=
        Lexeme.Lexed.mark lexed (by rw [Token.lexeme_kind, right]; decide)
      rw [Token.lexeme, right, text]
    rw [mark]
    exact Lexeme.separable_mark (by decide)
  refine TokenStream.lexemes_spaced fun m hm => ?_
  rcases Lexeme.mem_joined hm with hm | ⟨t, rfl⟩
  · rw [← List.cons_append, List.map_append, List.mem_append] at hm
    rcases hm with hm | hm
    · exact separate.separable_of_mem m hm
    · rwa [List.mem_singleton.1 hm]
  · exact Lexeme.separable_string t

end Rule

/-- **Aggregates replay faithfully.**  If an aggregate at the start of a text has a value,
the tokens taken are a block: their braces are balanced, and those of no shorter stretch
from the start are.  The value is lexed to the same lexemes with each maximal run of strings
merged, and read again it is its own value. -/
theorem aggregate_replays {source v : Text} {s : Reader}
    (h : Rule.aggregate (Reader.ofStream (TokenStream.ofText source)) = .ok v s) :
    ∃ block merged,
      (TokenStream.ofText source).tokens = block ++ s.rest ∧ s.taken = block.reverse ∧
      Lexeme.StringsMerged (block.map Token.lexeme) merged ∧
      (TokenStream.ofText v).all.map Token.lexeme = merged ++ [⟨.endOfFile, []⟩] ∧
      Token.openAfter 0 block = some 0 ∧
      (∀ k, 0 < k → k < block.length → 0 < Token.excess (block.take k)) ∧
      ∃ s', Rule.aggregate (Reader.ofStream (TokenStream.ofText v)) = .ok v s' := by
  obtain ⟨block, isBlock, pass, rfl⟩ :=
    Rule.isBlock_of_run_aggregate (Reader.lexed_ofStream source) h
  have tokens : (TokenStream.ofText source).tokens = block ++ s.rest := pass.rest
  have lexemes := Rule.lexemes_replayed isBlock tokens
  refine ⟨block, Lexeme.joined [] (block.map Token.lexeme), tokens,
    pass.taken.trans (List.append_nil _),
    ?_, ?_, isBlock.openAfter_eq, fun k hk short => isBlock.excess_take_pos hk short, ?_⟩
  · exact isBlock.stringsMerged
  · rw [TokenStream.all, List.map_append, lexemes]
    rfl
  · obtain ⟨s', run, -⟩ := Rule.run_aggregate_of_isBlock
      (r := Reader.ofStream (TokenStream.ofText (Rule.replayed block)))
      (isBlock.joined lexemes) (List.append_nil _).symm
    have again : Rule.replayed (TokenStream.ofText (Rule.replayed block)).tokens =
        Rule.replayed block := by
      rw [Rule.replayed, lexemes, Lexeme.joined_joined, Rule.replayed]
    rw [again] at run
    exact ⟨s', run⟩

/-- A block with two neighbouring strings, an inner block and a sign that stands apart,
and a token behind it. -/
def nestedAggregate : Text := "\x7b a: \"x\\\"\" 'y' b \x7b c: - 1 \x7d \x7d ;"

/-- The two strings are one in the value. -/
theorem nestedAggregate_replays :
    (∃ s, Rule.aggregate (Reader.ofStream (TokenStream.ofText nestedAggregate)) =
      .ok "\x7b a : \"x\\\"y\" b \x7b c : - 1 \x7d \x7d" s) ∧
    ∃ s', Rule.aggregate (Reader.ofStream (TokenStream.ofText
        "\x7b a : \"x\\\"y\" b \x7b c : - 1 \x7d \x7d")) =
      .ok "\x7b a : \"x\\\"y\" b \x7b c : - 1 \x7d \x7d" s' := by
  obtain ⟨s, run⟩ := Rule.run_of_value (x := Rule.aggregate)
    (r := Reader.ofStream (TokenStream.ofText nestedAggregate))
    (a := "\x7b a : \"x\\\"y\" b \x7b c : - 1 \x7d \x7d") (by decide +kernel)
  obtain ⟨-, -, -, -, -, -, -, -, again⟩ := aggregate_replays run
  exact ⟨⟨s, run⟩, again⟩

end ProtoAtlas
