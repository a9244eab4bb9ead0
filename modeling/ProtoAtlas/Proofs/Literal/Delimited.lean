/-
# Where a string ends

A string is delimited twice.  To cut it off the text, a scan goes forward from its opening
quote and lets each backslash take the next character along; it stops behind the first quote
it meets on its own, or at the end of the text (`Segment.scanString`).  To find its value, the
closing quote is recognized from the back: the last character is one if it is the quote and
an even number of backslashes stands in front of it.

The two agree on every string of a text (`string_ends_where_scan_ends`).  What the scan has
passed over is made of plain characters and of pairs that start with a backslash
(`Literal.Enclosed`).  A run of backslashes at its end starts where a pair or a plain character
starts, so the run is even if the scan stopped there, and odd if it went on over a quote.
-/

import ProtoAtlas.Proofs.Literal.Spelling
import ProtoAtlas.Proofs.Source.Placed

namespace ProtoAtlas

/-! ### Tokens where they stand -/

namespace TokenStream

theorem exists_cut_of_mem_place {p : Position} {t : Text} {q : PlacedSegment}
    (h : q ∈ place p (Segment.segments t)) : ∃ before c cs more, t = before ++ c :: cs ∧
      Segment.classify c cs = (q.segment.shape, more) ∧ q.segment.text = c :: cs.take more ∧
      q.span = ⟨p.after before, p.after (before ++ q.segment.text)⟩ := by
  fun_induction Segment.segments t generalizing p with
  | case1 => cases h
  | case2 c cs shape more cut ih =>
    rw [place] at h
    rcases List.mem_cons.1 h with rfl | h
    · exact ⟨[], c, cs, more, rfl, cut, rfl, rfl⟩
    · obtain ⟨before, d, ds, length, rest, cut', text, span⟩ := ih h
      refine ⟨c :: cs.take more ++ before, d, ds, length, ?_, cut', text, ?_⟩
      · rw [List.append_assoc, ← rest, List.cons_append, List.take_append_drop]
      · rw [span, List.append_assoc, Position.after_append p, Position.after_append p]

/-- A token is cut off the text where it stands. -/
theorem exists_cut_of_mem_tokens {t : Text} {token : Token} (h : token ∈ (ofText t).tokens) :
    ∃ before c cs more, t = before ++ c :: cs ∧
      Segment.classify c cs = (.token token.kind, more) ∧ token.text = c :: cs.take more ∧
      token.span = ⟨Position.zero.after before, Position.zero.after (before ++ token.text)⟩ := by
  have site : token.site ∈ (ofText t).tokens.map Token.site := List.mem_map_of_mem h
  rw [map_site_ofText] at site
  obtain ⟨q, placed, same⟩ := List.mem_filterMap.1 site
  obtain ⟨lexeme, found, same⟩ := Option.map_eq_some_iff.1 same
  obtain ⟨rfl, span⟩ := Prod.mk.inj same
  unfold Segment.lexeme? at found
  split at found
  · next kind shape =>
    obtain ⟨rfl, text⟩ := Lexeme.mk.inj (Option.some.inj found)
    have cut := exists_cut_of_mem_place placed
    rwa [shape, text, span] at cut
  · cases found

end TokenStream

/-! ### The scan from the front -/

namespace Segment

/-- The scan for the end of a string, from behind its opening quote: how many characters it
takes, and whether it ends at a closing quote. -/
def scanString (quote : CodePoint) : Text → Nat × Bool
  | [] => (0, false)
  | [c] => (1, c = quote)
  | c :: d :: cs =>
    if c = quote then (1, true)
    else if c = CodePoint.ofChar '\\' then (scanString quote cs).map (2 + ·) id
    else (scanString quote (d :: cs)).map (1 + ·) id

/-- The scan takes the characters of the string. -/
theorem scanString_fst (quote : CodePoint) (t : Text) :
    (scanString quote t).1 = stringLength quote t := by
  fun_induction scanString quote t with
  | case1 => rfl
  | case2 c => rfl
  | case3 d cs => rw [stringLength, if_pos rfl]
  | case4 d cs unquoted ih => rw [stringLength, if_neg unquoted, if_pos rfl, Prod.map_fst, ih]
  | case5 c d cs unquoted plain ih =>
    rw [stringLength, if_neg unquoted, if_neg plain, Prod.map_fst, ih]

end Segment

namespace Literal

open Segment

/-- What can stand between the quotes of a string: plain characters, and pairs of a backslash
and any character. -/
inductive Enclosed (quote : CodePoint) : Text → Prop
  | nil : Enclosed quote []
  | plain {c : CodePoint} {t : Text} (unquoted : c ≠ quote) (single : c ≠ CodePoint.ofChar '\\')
      (rest : Enclosed quote t) : Enclosed quote (c :: t)
  | pair (c : CodePoint) {t : Text} (rest : Enclosed quote t) :
      Enclosed quote (CodePoint.ofChar '\\' :: c :: t)

/-- What can stand behind the opening quote of a string that is not closed: the text may end
between a backslash and the character it would take along. -/
inductive Unclosed (quote : CodePoint) : Text → Prop
  | whole {t : Text} (enclosed : Enclosed quote t) : Unclosed quote t
  | broken {t : Text} (enclosed : Enclosed quote t) : Unclosed quote (t ++ [CodePoint.ofChar '\\'])

theorem Unclosed.plain {quote c : CodePoint} {t : Text} (h : Unclosed quote t)
    (unquoted : c ≠ quote) (single : c ≠ CodePoint.ofChar '\\') : Unclosed quote (c :: t) := by
  cases h with
  | whole enclosed => exact .whole (enclosed.plain unquoted single)
  | broken enclosed => exact .broken (enclosed.plain unquoted single)

theorem Unclosed.pair {quote : CodePoint} {t : Text} (h : Unclosed quote t) (c : CodePoint) :
    Unclosed quote (CodePoint.ofChar '\\' :: c :: t) := by
  cases h with
  | whole enclosed => exact .whole (enclosed.pair c)
  | broken enclosed => exact .broken (enclosed.pair c)

variable {quote : CodePoint}

/-- A scan that ends at a closing quote has passed over what the quotes enclose. -/
theorem enclosed_of_scanString {t : Text} (closed : (scanString quote t).2 = true) :
    ∃ inner, Enclosed quote inner ∧ t.take (scanString quote t).1 = inner ++ [quote] := by
  fun_induction scanString quote t with
  | case1 => cases closed
  | case2 c =>
    obtain rfl := of_decide_eq_true closed
    exact ⟨[], .nil, rfl⟩
  | case3 d cs => exact ⟨[], .nil, rfl⟩
  | case4 d cs unquoted ih =>
    obtain ⟨inner, enclosed, taken⟩ := ih closed
    refine ⟨_, enclosed.pair d, ?_⟩
    rw [Prod.map_fst, Nat.add_comm, List.take_succ_cons, List.take_succ_cons, taken]
    rfl
  | case5 c d cs unquoted single ih =>
    obtain ⟨inner, enclosed, taken⟩ := ih closed
    refine ⟨_, enclosed.plain unquoted single, ?_⟩
    rw [Prod.map_fst, Nat.add_comm, List.take_succ_cons, taken]
    rfl

/-- A scan that meets no closing quote takes the text to its end. -/
theorem unclosed_of_scanString {t : Text} (opened : (scanString quote t).2 = false) :
    Unclosed quote t ∧ (scanString quote t).1 = t.length := by
  fun_induction scanString quote t with
  | case1 => exact ⟨.whole .nil, rfl⟩
  | case2 c =>
    have unquoted : c ≠ quote := of_decide_eq_false opened
    by_cases single : c = CodePoint.ofChar '\\'
    · exact ⟨single ▸ .broken .nil, rfl⟩
    · exact ⟨.whole (Enclosed.nil.plain unquoted single), rfl⟩
  | case3 d cs => cases opened
  | case4 d cs unquoted ih =>
    obtain ⟨unclosed, length⟩ := ih opened
    exact ⟨unclosed.pair d, by rw [Prod.map_fst, length, Nat.add_comm]; rfl⟩
  | case5 c d cs unquoted single ih =>
    obtain ⟨unclosed, length⟩ := ih opened
    exact ⟨unclosed.plain unquoted single, by rw [Prod.map_fst, length, Nat.add_comm]; rfl⟩

/-! ### The count from the back -/

theorem endsInEscape_append_pair {before : Text} (even : endsInEscape before = false)
    (c : CodePoint) : endsInEscape (before ++ [CodePoint.ofChar '\\', c]) = false := by
  by_cases backslash : c = CodePoint.ofChar '\\'
  · rw [backslash, endsInEscape_pair, even]
  · have last := endsInEscape_concat (before ++ [CodePoint.ofChar '\\']) backslash
    rwa [List.append_assoc] at last

theorem endsInEscape_concat_backslash {before : Text} (even : endsInEscape before = false) :
    endsInEscape (before ++ [CodePoint.ofChar '\\']) = true := by
  have next : ∀ n, ¬n % 2 = 1 → (n + 1) % 2 = 1 := by omega
  rw [endsInEscape, decide_eq_false_iff_not] at even
  rw [endsInEscape, decide_eq_true_eq, List.reverse_append, List.reverse_singleton,
    List.singleton_append, List.takeWhile_cons_of_pos (by simp), List.length_cons]
  exact next _ even

/-- No backslash is left over at the end of what quotes enclose. -/
theorem Enclosed.endsInEscape_append {inner : Text} (h : Enclosed quote inner) (before : Text)
    (even : endsInEscape before = false) : endsInEscape (before ++ inner) = false := by
  induction h generalizing before with
  | nil => rwa [List.append_nil]
  | plain _ single _ ih =>
    rw [List.append_cons]
    exact ih _ (endsInEscape_concat before single)
  | pair c _ ih =>
    have rest := ih _ (endsInEscape_append_pair even c)
    rwa [List.append_assoc] at rest

/-- A quote at the end of what quotes enclose belongs to a backslash. -/
theorem Enclosed.endsInEscape_front {inner : Text} (h : Enclosed quote inner)
    (noEscape : CodePoint.ofChar '\\' ≠ quote) (before : Text) {front : Text}
    (even : endsInEscape before = false) (last : inner = front ++ [quote]) :
    endsInEscape (before ++ front) = true := by
  induction h generalizing before front with
  | nil => simp at last
  | plain unquoted single _ ih =>
    cases front with
    | nil => exact absurd (List.cons.inj last).1 unquoted
    | cons c front =>
      obtain ⟨rfl, rest⟩ := List.cons.inj last
      rw [List.append_cons]
      exact ih _ (endsInEscape_concat before single) rest
  | pair c _ ih =>
    cases front with
    | nil => exact absurd (List.cons.inj last).1 noEscape
    | cons backslash front =>
      obtain ⟨rfl, rest⟩ := List.cons.inj last
      cases front with
      | nil => exact endsInEscape_concat_backslash even
      | cons d front =>
        obtain ⟨rfl, tail⟩ := List.cons.inj rest
        have inside := ih _ (endsInEscape_append_pair even c) tail
        rwa [List.append_assoc] at inside

theorem dropClosingQuote_enclosed {inner : Text} (h : Enclosed quote inner) :
    dropClosingQuote quote (inner ++ [quote]) = inner := by
  have even : endsInEscape inner = false := h.endsInEscape_append [] rfl
  rw [dropClosingQuote, List.getLast?_concat, List.dropLast_concat, even, if_pos (by simp)]

theorem dropClosingQuote_unclosed {body : Text} (noEscape : CodePoint.ofChar '\\' ≠ quote)
    (h : Unclosed quote body) : dropClosingQuote quote body = body := by
  rw [dropClosingQuote, if_neg]
  rw [Bool.and_eq_true, decide_eq_true_eq, Bool.not_eq_true']
  rintro ⟨last, even⟩
  obtain ⟨front, split⟩ := List.getLast?_eq_some_iff.1 last
  rw [split, List.dropLast_concat] at even
  cases h with
  | whole enclosed =>
    have odd : endsInEscape front = true := enclosed.endsInEscape_front noEscape [] rfl split
    rw [even] at odd
    cases odd
  | broken enclosed =>
    rw [List.getLast?_concat] at last
    exact noEscape (Option.some.inj last)

end Literal

/-! ### The two agree -/

open Segment Literal

/-- **A string loses its last character exactly if the scan ended at a closing quote.**  Take
any string token of a text.  It is the opening quote and what the scan takes of the text behind
it.  To find the value, a closing quote is dropped if and only if the scan ended at one.  If it
did, the value is that of what the quotes enclose, where every quote of that kind belongs to a
backslash, and the delimiter is not part of it.  If it did not, the string goes on to the end of
the text and its value is that of all characters behind the opening quote. -/
theorem string_ends_where_scan_ends (t : Text) (token : Token)
    (mem : token ∈ (TokenStream.ofText t).all) (string : token.kind = .string) :
    ∃ before quote rest, t = before ++ quote :: rest ∧ isQuote quote = true ∧
      token.text = quote :: rest.take (scanString quote rest).1 ∧
      token.span = ⟨Position.zero.after before, Position.zero.after (before ++ token.text)⟩ ∧
      (dropClosingQuote quote token.text.tail ≠ token.text.tail ↔
        (scanString quote rest).2 = true) ∧
      ((scanString quote rest).2 = true → ∃ inner, Enclosed quote inner ∧
        token.text = quote :: inner ++ [quote] ∧ stringValue token.text = unescape inner) ∧
      ((scanString quote rest).2 = false → Unclosed quote rest ∧ token.text = quote :: rest ∧
        stringValue token.text = unescape rest) := by
  have inTokens : token ∈ (TokenStream.ofText t).tokens := by
    refine (List.mem_append.1 mem).resolve_right fun finish => ?_
    rw [List.mem_singleton.1 finish] at string
    cases string
  obtain ⟨before, quote, rest, more, split, cut, text, span⟩ :=
    TokenStream.exists_cut_of_mem_tokens inTokens
  rw [string] at cut
  cases tokenStart_of_classify cut with
  | punctuation mark _ listed _ => exact absurd rfl (kind_of_mem_marks listed).2.2
  | string isQuote =>
    have opening : quote = CodePoint.ofChar '"' ∨ quote = CodePoint.ofChar '\'' := by
      simpa [Segment.isQuote] using isQuote
    have noEscape : CodePoint.ofChar '\\' ≠ quote := by
      rintro rfl
      exact absurd isQuote (by decide)
    have value : ∀ body, stringValue (quote :: body) = unescape (dropClosingQuote quote body) :=
      fun body => if_pos opening
    rw [← scanString_fst] at text
    refine ⟨before, quote, rest, split, isQuote, text, span, ?_⟩
    cases closed : (scanString quote rest).2 with
    | true =>
      obtain ⟨inner, enclosed, taken⟩ := enclosed_of_scanString closed
      have dropped := dropClosingQuote_enclosed enclosed
      rw [text, taken, value, List.tail_cons, dropped]
      exact ⟨by simp, fun _ => ⟨inner, enclosed, rfl, rfl⟩, fun opened => absurd opened (by simp)⟩
    | false =>
      obtain ⟨unclosed, length⟩ := unclosed_of_scanString closed
      have kept := dropClosingQuote_unclosed noEscape unclosed
      rw [text, length, List.take_length, value, List.tail_cons, kept]
      exact ⟨by simp, fun closed => absurd closed (by simp), fun _ => ⟨unclosed, rfl, rfl⟩⟩

namespace TwoStrings

/-- A string that ends in two backslashes and is closed, and one that ends in a quote behind a
backslash and is not. -/
def text : Text := "x = \"a\\\\\"; 'b\\'"

def closed : Token := ⟨.string, "\"a\\\\\"", ⟨⟨0, 4⟩, ⟨0, 9⟩⟩, none, none⟩

def unclosed : Token := ⟨.string, "'b\\'", ⟨⟨0, 11⟩, ⟨0, 15⟩⟩, none, none⟩

/-- The first string is read without its last quote, and the second one with it. -/
theorem closing_quote_is_told_from_escaped_quote :
    closed ∈ (TokenStream.ofText text).all ∧ closed.kind = .string ∧
    (∃ inner, Enclosed (CodePoint.ofChar '"') inner ∧
      closed.text = CodePoint.ofChar '"' :: inner ++ [CodePoint.ofChar '"'] ∧
      stringValue closed.text = unescape inner) ∧
    unclosed ∈ (TokenStream.ofText text).all ∧ unclosed.kind = .string ∧
    ∃ rest, Unclosed (CodePoint.ofChar '\'') rest ∧
      unclosed.text = CodePoint.ofChar '\'' :: rest ∧
      stringValue unclosed.text = unescape rest := by
  have first : closed ∈ (TokenStream.ofText text).all := by decide +kernel
  have second : unclosed ∈ (TokenStream.ofText text).all := by decide +kernel
  refine ⟨first, rfl, ?_, second, rfl, ?_⟩
  · obtain ⟨before, quote, rest, -, -, token, -, dropped, ended, -⟩ :=
      string_ends_where_scan_ends text closed first rfl
    obtain rfl : CodePoint.ofChar '"' = quote := (List.cons.inj token).1
    exact ended (dropped.1 (by decide))
  · obtain ⟨before, quote, rest, -, -, token, -, dropped, -, open_⟩ :=
      string_ends_where_scan_ends text unclosed second rfl
    obtain rfl : CodePoint.ofChar '\'' = quote := (List.cons.inj token).1
    exact ⟨rest, open_ (Bool.eq_false_iff.2 fun ended => dropped.2 ended (by decide))⟩

end TwoStrings

end ProtoAtlas
