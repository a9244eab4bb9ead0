/-
# What the tokens of a text look like

`Segment.classify` decides from the characters in front what segment starts there.
`TokenStart` turns that around: it lists the five ways a token can start, with the
number of characters the token takes (`tokenStart_of_classify`).

A token is *lexed* if some text makes `classify` cut it off, and all tokens of a
source text are lexed (`Token.lexed_of_mem_tokens`).  So an identifier is made of
letters, digits and underscores, a number never starts with a letter, and a token
with the kind of a brace is a brace.
-/

import Mathlib.Data.List.TakeWhile
import Mathlib.Tactic.SplitIfs
import ProtoAtlas.Source.Token

namespace ProtoAtlas

namespace Segment

/-! ### Which characters start which token -/

/-- The ways a token can start with the character `c` in front of `cs`: the kind of
the token, and how many characters of `cs` belong to it. -/
inductive TokenStart (c : CodePoint) (cs : Text) : TokenKind → Nat → Prop
  | string (quote : isQuote c = true) : TokenStart c cs .string (stringLength c cs)
  | unsigned (start : startsUnsigned (c :: cs) = true) :
      TokenStart c cs .number (numberLength (c :: cs) - 1)
  | signed (sign : isSign c = true) (start : startsUnsigned cs = true) :
      TokenStart c cs .number (numberLength cs)
  | identifier (start : isIdentifierStart c = true) :
      TokenStart c cs .identifier (runLength isIdentifierPart cs)
  | punctuation (mark : Char) (kind : TokenKind) (listed : (mark, kind) ∈ marks)
      (same : c = CodePoint.ofChar mark) : TokenStart c cs kind 0

/-- A punctuation character stands in the list of marks. -/
theorem mem_marks_of_punctuation? {c : CodePoint} {kind : TokenKind}
    (h : punctuation? c = some kind) : ∃ m, (m, kind) ∈ marks ∧ c = CodePoint.ofChar m := by
  unfold punctuation? at h
  obtain ⟨⟨m, k⟩, found, rfl⟩ := Option.map_eq_some_iff.1 h
  exact ⟨m, List.mem_of_find?_eq_some found, by simpa using List.find?_some found⟩

theorem tokenStart_of_classify {c : CodePoint} {cs : Text} {kind : TokenKind} {more : Nat}
    (h : classify c cs = (.token kind, more)) : TokenStart c cs kind more := by
  unfold classify at h
  split_ifs at h with blank line block quote unsigned signed identifier
  · cases h
  · cases h
  · cases h
  · cases h
    exact .string quote
  · cases h
    exact .unsigned unsigned
  · cases h
    rw [Bool.and_eq_true] at signed
    exact .signed signed.1 signed.2
  · cases h
    exact .identifier identifier
  · split at h
    · next mark =>
      cases h
      obtain ⟨m, listed, same⟩ := mem_marks_of_punctuation? mark
      exact .punctuation m _ listed same
    · cases h

theorem take_runLength (p : CodePoint → Bool) (t : Text) : t.take (runLength p t) = t.takeWhile p :=
  (List.prefix_iff_eq_take.1 (List.takeWhile_prefix p)).symm

theorem startsUnsigned_cons {c : CodePoint} {cs : Text} (h : startsUnsigned (c :: cs) = true) :
    c.isDigit = true ∨ c = CodePoint.ofChar '.' := by
  rw [startsUnsigned, Bool.or_eq_true, Bool.and_eq_true, decide_eq_true_eq] at h
  exact h.imp_right And.left

/-- A number has at least its first character. -/
theorem numberLength_pos {c : CodePoint} {cs : Text} (h : startsUnsigned (c :: cs) = true) :
    0 < numberLength (c :: cs) := by
  have first : (c.isDigit || c = CodePoint.ofChar '.') = true := by
    rw [Bool.or_eq_true, decide_eq_true_eq]
    exact startsUnsigned_cons h
  have decimal : 0 < decimalLength (c :: cs) := by
    simp only [decimalLength, runLength, List.takeWhile_cons, first, if_true, List.length_cons]
    omega
  unfold numberLength
  split
  · split
    · omega
    · exact decimal
  · exact decimal

/-- A kind of punctuation has one mark. -/
theorem mark_unique {m n : Char} {kind : TokenKind} (hm : (m, kind) ∈ marks)
    (hn : (n, kind) ∈ marks) : m = n := by
  have unique : ∀ a ∈ marks, ∀ b ∈ marks, a.2 = b.2 → a.1 = b.1 := by decide
  exact unique _ hm _ hn rfl

/-- Identifiers, numbers and strings have no mark. -/
theorem kind_of_mem_marks {m : Char} {kind : TokenKind} (h : (m, kind) ∈ marks) :
    kind ≠ .identifier ∧ kind ≠ .number ∧ kind ≠ .string := by
  have proper : ∀ a ∈ marks, a.2 ≠ .identifier ∧ a.2 ≠ .number ∧ a.2 ≠ .string := by decide
  exact proper _ h

end Segment

/-! ### Lexemes -/

/-- A token without its place and its comments. -/
structure Lexeme where
  kind : TokenKind
  text : Text
  deriving DecidableEq

/-- What is left of a token without its place and its comments. -/
def Token.lexeme (t : Token) : Lexeme := ⟨t.kind, t.text⟩

@[simp] theorem Token.lexeme_kind (t : Token) : t.lexeme.kind = t.kind := rfl

@[simp] theorem Token.lexeme_text (t : Token) : t.lexeme.text = t.text := rfl

@[simp] theorem Token.lexeme_addTrailing (t : Token) (comment : Text) :
    (t.addTrailing comment).lexeme = t.lexeme := by
  unfold Token.addTrailing
  split <;> rfl

/-- The lexeme of a segment that is a token. -/
def Segment.lexeme? (s : Segment) : Option Lexeme :=
  match s.shape with
  | .token kind => some ⟨kind, s.text⟩
  | _ => none

namespace TokenStream

theorem map_segment_place (p : Position) (ss : List Segment) :
    (place p ss).map (·.segment) = ss := by
  induction ss generalizing p with
  | nil => rfl
  | cons s rest ih => simp only [place, List.map_cons, ih]

/-- Comments change no lexeme: what `attach` gives out are the token it waits with
and the token segments, in order. -/
theorem map_lexeme_attach (near : Bool) (last : Option Token) (pending : List Text)
    (ps : List PlacedSegment) : (attach near last pending ps).1.map Token.lexeme =
      last.toList.map Token.lexeme ++ ps.filterMap (·.segment.lexeme?) := by
  induction ps generalizing near last pending with
  | nil => simp [attach]
  | cons s rest ih =>
    unfold attach
    split
    · next kind shape =>
      have here : s.segment.lexeme? = some ⟨kind, s.segment.text⟩ := by
        simp [Segment.lexeme?, shape]
      simp only [List.map_append, ih, List.filterMap_cons, here]
      rfl
    · next shape =>
      have here : s.segment.lexeme? = none := by
        unfold Segment.lexeme?
        split
        · next kind h => exact absurd h (shape kind)
        · rfl
      rw [List.filterMap_cons, here]
      split
      · exact ih _ _ _
      · exact ih _ _ _
      · next token =>
        split
        · rw [ih]
          simp
        · exact ih _ _ _

/-- **The lexemes of a text are those of its segments.** -/
theorem map_lexeme_ofText (t : Text) :
    (ofText t).tokens.map Token.lexeme = (Segment.segments t).filterMap Segment.lexeme? := by
  calc (ofText t).tokens.map Token.lexeme
    _ = (place Position.zero (Segment.segments t)).filterMap (·.segment.lexeme?) :=
      map_lexeme_attach false none [] (place Position.zero (Segment.segments t))
    _ = ((place Position.zero (Segment.segments t)).map (·.segment)).filterMap Segment.lexeme? := by
      rw [List.filterMap_map]; rfl
    _ = (Segment.segments t).filterMap Segment.lexeme? := by rw [map_segment_place]

end TokenStream

/-! ### Lexed tokens -/

/-- A letter or an underscore, and then letters, digits and underscores. -/
def Text.isIdentifier : Text → Bool
  | [] => false
  | c :: cs => Segment.isIdentifierStart c && cs.all Segment.isIdentifierPart

/-- A lexeme that is cut off some text. -/
def Lexeme.Lexed (l : Lexeme) : Prop :=
  ∃ c cs more, Segment.classify c cs = (.token l.kind, more) ∧ l.text = c :: cs.take more

/-- A token whose lexeme is cut off some text. -/
def Token.Lexed (t : Token) : Prop := t.lexeme.Lexed

theorem Segment.lexed_of_mem_segments {t : Text} {l : Lexeme}
    (h : l ∈ (segments t).filterMap lexeme?) : l.Lexed := by
  fun_induction segments t with
  | case1 => cases h
  | case2 c cs shape more cut ih =>
    rw [List.filterMap_cons] at h
    split at h
    · exact ih h
    · next l' found =>
      rcases List.mem_cons.1 h with rfl | h
      · unfold lexeme? at found
        split at found
        · next kind hk =>
          cases found
          exact ⟨c, cs, more, hk ▸ cut, rfl⟩
        · cases found
      · exact ih h

/-- **All tokens of a text are lexed.** -/
theorem Token.lexed_of_mem_tokens {t : Text} {token : Token}
    (h : token ∈ (TokenStream.ofText t).tokens) : token.Lexed := by
  have mem : token.lexeme ∈ (TokenStream.ofText t).tokens.map Token.lexeme :=
    List.mem_map_of_mem h
  rw [TokenStream.map_lexeme_ofText] at mem
  exact Segment.lexed_of_mem_segments mem

namespace Lexeme

/-- An identifier token is an identifier. -/
theorem Lexed.identifier {l : Lexeme} (h : l.Lexed) (hk : l.kind = .identifier) :
    l.text.isIdentifier = true := by
  obtain ⟨c, cs, more, cut, text⟩ := h
  rw [hk] at cut
  cases Segment.tokenStart_of_classify cut with
  | identifier start =>
    rw [text, Text.isIdentifier, start, Segment.take_runLength, Bool.true_and, List.all_eq_true]
    exact fun d hd => List.mem_takeWhile_imp hd
  | punctuation mark _ listed same => exact absurd rfl (Segment.kind_of_mem_marks listed).1

/-- A number starts with a digit or a point, possibly after a sign. -/
theorem Lexed.number {l : Lexeme} (h : l.Lexed) (hk : l.kind = .number) :
    ∃ signs c cs, l.text = signs ++ c :: cs ∧ (∀ s ∈ signs, Segment.isSign s = true) ∧
      (c.isDigit = true ∨ c = CodePoint.ofChar '.') := by
  obtain ⟨c, cs, more, cut, text⟩ := h
  rw [hk] at cut
  cases Segment.tokenStart_of_classify cut with
  | unsigned start =>
    exact ⟨[], c, _, text, by simp, Segment.startsUnsigned_cons start⟩
  | signed sign start =>
    cases cs with
    | nil => cases start
    | cons d ds =>
      obtain ⟨n, hn⟩ := Nat.exists_eq_add_one_of_ne_zero (Segment.numberLength_pos start).ne'
      rw [hn, List.take_succ_cons] at text
      refine ⟨[c], d, _, text, fun s hs => ?_, Segment.startsUnsigned_cons start⟩
      rw [List.mem_singleton.1 hs]
      exact sign
  | punctuation mark _ listed same => exact absurd rfl (Segment.kind_of_mem_marks listed).2.1

/-- A punctuation token is its mark. -/
theorem Lexed.mark {l : Lexeme} (h : l.Lexed) {m : Char} (hm : (m, l.kind) ∈ Segment.marks) :
    l.text = [CodePoint.ofChar m] := by
  obtain ⟨c, cs, more, cut, text⟩ := h
  have proper := Segment.kind_of_mem_marks hm
  generalize l.kind = kind at cut hm proper
  cases Segment.tokenStart_of_classify cut with
  | string quote => exact absurd rfl proper.2.2
  | unsigned start => exact absurd rfl proper.2.1
  | signed sign start => exact absurd rfl proper.2.1
  | identifier start => exact absurd rfl proper.1
  | punctuation mark _ listed same =>
    rw [text, same, Segment.mark_unique listed hm]
    rfl

end Lexeme

end ProtoAtlas
