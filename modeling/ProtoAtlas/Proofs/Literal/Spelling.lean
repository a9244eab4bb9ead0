/-
# The spellings of a character in a string

A character of a string can be written in several ways:

| spelling | characters |
| --- | --- |
| the character itself | all but the quote of the literal and the backslash |
| a backslash and a letter or a sign | the eleven of `namedEscapes` |
| a backslash and three octal digits | those below `U+0200` |
| `\x` or `\X` and two hexadecimal digits | those below `U+0100` |
| `\u` and four hexadecimal digits | those below `U+10000` |
| `\U` and eight hexadecimal digits | all |

However the spellings are chosen, character by character, the literal between two
quotes is one token and its value is the text (`spelled_literal_reads_back`).

Three scans have to agree on where a spelling ends: `stringLength` looks for the closing
quote from the front, `endsInEscape` counts backslashes from the back, and `unescape`
decodes.  The first two see only the shape of a spelling: one character, or a backslash,
any character and digits (`CharSpelling.shape`).
-/

import Mathlib.Data.Nat.Digits.Defs
import ProtoAtlas.Proofs.Source.Respaced

namespace ProtoAtlas
namespace Literal

/-! ### Digits of either case -/

/-- A digit of a base and its character; a letter may be of either case. -/
def IsDigit (base d : Nat) (c : CodePoint) : Prop :=
  d < base ∧ (c = CodePoint.ofChar (Nat.digitChar d) ∨
    c = CodePoint.ofChar (Nat.digitChar d).toUpper)

instance (base d : Nat) (c : CodePoint) : Decidable (IsDigit base d c) :=
  inferInstanceAs (Decidable (_ ∧ _))

/-- A text of `width` digits of a base, the most significant first, that spell `n`. -/
def Spells (base width n : Nat) (t : Text) : Prop :=
  ∃ ds, List.Forall₂ (IsDigit base) ds t ∧ ds.length = width ∧ Nat.ofDigits base ds.reverse = n

/-- What the scans need to know about a hexadecimal digit. -/
theorem IsDigit.hexadecimal {d : Nat} {c : CodePoint} (h : IsDigit 16 d c) :
    c.isHexDigit = true ∧ c.hexValue = d ∧ c ≠ CodePoint.ofChar '\\' ∧
      Segment.isQuote c = false := by
  have all : ∀ d < 16, ∀ c ∈ [CodePoint.ofChar (Nat.digitChar d),
      CodePoint.ofChar (Nat.digitChar d).toUpper], c.isHexDigit = true ∧ c.hexValue = d ∧
        c ≠ CodePoint.ofChar '\\' ∧ Segment.isQuote c = false := by decide
  exact all d h.1 c (by simpa using h.2)

/-- An octal digit starts no other escape. -/
theorem IsDigit.octal {d : Nat} {c : CodePoint} (h : IsDigit 8 d c) :
    c.isOctalDigit = true ∧ simpleEscape? c = none ∧ c.toLower ≠ CodePoint.ofChar 'x' := by
  have all : ∀ d < 8, ∀ c ∈ [CodePoint.ofChar (Nat.digitChar d),
      CodePoint.ofChar (Nat.digitChar d).toUpper], c.isOctalDigit = true ∧
        simpleEscape? c = none ∧ c.toLower ≠ CodePoint.ofChar 'x' := by decide
  exact all d h.1 c (by simpa using h.2)

theorem IsDigit.mono {base base' d : Nat} {c : CodePoint} (le : base ≤ base')
    (h : IsDigit base d c) : IsDigit base' d c :=
  ⟨Nat.lt_of_lt_of_le h.1 le, h.2⟩

namespace Spells

variable {base width n : Nat} {t : Text}

theorem length_eq (h : Spells base width n t) : t.length = width := by
  obtain ⟨ds, digits, length, -⟩ := h
  rw [← digits.length_eq, length]

/-- What holds of the digits of the base holds of every character. -/
theorem forall_mem (h : Spells base width n t) {P : CodePoint → Prop}
    (digit : ∀ d c, IsDigit base d c → P c) : ∀ c ∈ t, P c := by
  obtain ⟨ds, digits, -⟩ := h
  induction digits with
  | nil => simp
  | cons head _ ih => exact List.forall_mem_cons.2 ⟨digit _ _ head, ih⟩

/-- Digits are decoded to the number they spell. -/
theorem numberOf_eq (h : Spells base width n t) (hb : base ≤ 16) : numberOf base t = n := by
  obtain ⟨ds, digits, -, value⟩ := h
  have values : t.map CodePoint.hexValue = ds := by
    clear value
    induction digits with
    | nil => rfl
    | cons head _ ih => rw [List.map_cons, ih, (head.mono hb).hexadecimal.2.1]
  calc numberOf base t
    _ = ds.foldl (fun n d => n * base + d) 0 := by rw [numberOf, ← values, List.foldl_map]
    _ = Nat.ofDigits base ds.reverse := by
      simp only [Nat.ofDigits_eq_foldr, List.foldr_reverse, Nat.cast_id, Nat.add_comm,
        Nat.mul_comm]
    _ = n := value

end Spells

/-! ### Spellings -/

/-- The escapes of one letter or sign, with the characters they stand for. -/
def namedEscapes : List (Char × Char) :=
  [('a', '\x07'), ('b', '\x08'), ('f', '\x0c'), ('n', '\n'), ('r', '\r'), ('t', '\t'),
    ('v', '\x0b'), ('\\', '\\'), ('\'', '\''), ('"', '"'), ('?', '?')]

/-- How a character can be written in a literal between two given quotes. -/
inductive CharSpelling (quote : CodePoint) : CodePoint → Text → Prop where
  | plain {c : CodePoint} : c ≠ quote → c ≠ CodePoint.ofChar '\\' → CharSpelling quote c [c]
  | named {letter char : Char} : (letter, char) ∈ namedEscapes →
      CharSpelling quote (CodePoint.ofChar char) [CodePoint.ofChar '\\', CodePoint.ofChar letter]
  | octal {c : CodePoint} {digits : Text} : Spells 8 3 c.val digits →
      CharSpelling quote c (CodePoint.ofChar '\\' :: digits)
  | byte {c : CodePoint} {mark : Char} {digits : Text} : mark = 'x' ∨ mark = 'X' →
      Spells 16 2 c.val digits →
      CharSpelling quote c (CodePoint.ofChar '\\' :: CodePoint.ofChar mark :: digits)
  | short {c : CodePoint} {digits : Text} : Spells 16 4 c.val digits →
      CharSpelling quote c (CodePoint.ofChar '\\' :: CodePoint.ofChar 'u' :: digits)
  | long {c : CodePoint} {digits : Text} : Spells 16 8 c.val digits →
      CharSpelling quote c (CodePoint.ofChar '\\' :: CodePoint.ofChar 'U' :: digits)

/-- A character that neither ends a literal nor starts an escape. -/
def Inert (quote c : CodePoint) : Prop := c ≠ quote ∧ c ≠ CodePoint.ofChar '\\'

theorem IsDigit.inert {base d : Nat} {quote c : CodePoint} (hb : base ≤ 16)
    (hq : Segment.isQuote quote = true) (h : IsDigit base d c) : Inert quote c := by
  obtain ⟨-, -, unescaped, unquoted⟩ := (h.mono hb).hexadecimal
  refine ⟨?_, unescaped⟩
  rintro rfl
  rw [hq] at unquoted
  cases unquoted

/-- **The shape of a spelling**: one character, or a backslash with the character it takes
along and digits. -/
theorem CharSpelling.shape {quote c : CodePoint} {t : Text} (hq : Segment.isQuote quote = true)
    (h : CharSpelling quote c t) :
    (∃ d, t = [d] ∧ Inert quote d) ∨
      ∃ e digits, t = CodePoint.ofChar '\\' :: e :: digits ∧ ∀ d ∈ digits, Inert quote d := by
  have inert : ∀ {base width n digits}, base ≤ 16 → Spells base width n digits →
      ∀ d ∈ digits, Inert quote d :=
    fun hb spells => spells.forall_mem fun d c digit => digit.inert hb hq
  cases h with
  | plain unquoted unescaped => exact Or.inl ⟨c, rfl, unquoted, unescaped⟩
  | named _ => exact Or.inr ⟨_, [], rfl, by simp⟩
  | @octal _ digits spells =>
    cases digits with
    | nil => exact absurd spells.length_eq (by simp)
    | cons e digits =>
      exact Or.inr ⟨e, digits, rfl, fun d hd => inert (by decide) spells d
        (List.mem_cons_of_mem e hd)⟩
  | byte _ spells => exact Or.inr ⟨_, _, rfl, inert (le_refl 16) spells⟩
  | short spells => exact Or.inr ⟨_, _, rfl, inert (le_refl 16) spells⟩
  | long spells => exact Or.inr ⟨_, _, rfl, inert (le_refl 16) spells⟩

/-! ### Decoding -/

theorem takeUpTo_append {width : Nat} {p : CodePoint → Bool} {t : Text} (length : t.length = width)
    (all : ∀ c ∈ t, p c = true) (rest : Text) : takeUpTo width p (t ++ rest) = t := by
  rw [takeUpTo, ← length, List.take_left, List.takeWhile_eq_self_iff]
  exact all

theorem charOf_val (c : CodePoint) : charOf c.val = [c] := by
  rw [charOf, CodePoint.ofNat?, dif_pos c.val_lt]
  rfl

theorem simpleEscape?_of_mem {letter char : Char} (h : (letter, char) ∈ namedEscapes) :
    simpleEscape? (CodePoint.ofChar letter) = some (CodePoint.ofChar char) := by
  have all : ∀ e ∈ namedEscapes,
      simpleEscape? (CodePoint.ofChar e.1) = some (CodePoint.ofChar e.2) := by decide
  exact all _ h

theorem Spells.isHexDigit {width n : Nat} {digits : Text} (h : Spells 16 width n digits) :
    ∀ d ∈ digits, d.isHexDigit = true :=
  h.forall_mem fun _ _ digit => digit.hexadecimal.1

theorem escape_octal {c e : CodePoint} {digits : Text} (h : Spells 8 3 c.val (e :: digits))
    (rest : Text) : escape e (digits ++ rest) = ([c], digits.length) := by
  have octal := h.forall_mem fun _ _ digit => digit.octal
  obtain ⟨digit, unnamed, unmarked⟩ := octal e List.mem_cons_self
  have taken : takeUpTo 2 CodePoint.isOctalDigit (digits ++ rest) = digits :=
    takeUpTo_append (Nat.succ.inj h.length_eq)
      (fun d hd => (octal d (List.mem_cons_of_mem e hd)).1) rest
  simp only [escape, unnamed, if_neg unmarked, digit, if_true, taken,
    h.numberOf_eq (by decide), charOf_val]

theorem escape_byte {c : CodePoint} {mark : Char} {digits : Text} (hm : mark = 'x' ∨ mark = 'X')
    (h : Spells 16 2 c.val digits) (rest : Text) :
    escape (CodePoint.ofChar mark) (digits ++ rest) = ([c], digits.length) := by
  have facts : simpleEscape? (CodePoint.ofChar mark) = none ∧
      (CodePoint.ofChar mark).toLower = CodePoint.ofChar 'x' := by
    rcases hm with rfl | rfl
    · decide
    · decide
  obtain ⟨unnamed, marked⟩ := facts
  have taken := takeUpTo_append h.length_eq h.isHexDigit rest
  have nonempty : digits.isEmpty = false := by
    rw [List.isEmpty_eq_false_iff, ← List.length_pos_iff, h.length_eq]
    decide
  simp only [escape, unnamed, marked, if_true, taken, nonempty, Bool.false_eq_true, if_false,
    h.numberOf_eq (le_refl 16), charOf_val]

theorem escape_wide {c : CodePoint} {mark : Char} {width : Nat} {digits : Text}
    (hm : mark = 'u' ∧ width = 4 ∨ mark = 'U' ∧ width = 8) (h : Spells 16 width c.val digits)
    (rest : Text) : escape (CodePoint.ofChar mark) (digits ++ rest) = ([c], digits.length) := by
  have facts : simpleEscape? (CodePoint.ofChar mark) = none ∧
      (CodePoint.ofChar mark).isOctalDigit = false ∧
      (CodePoint.ofChar mark).toLower = CodePoint.ofChar 'u' ∧
      (if CodePoint.ofChar mark = CodePoint.ofChar 'u' then 4 else 8) = width := by
    rcases hm with ⟨rfl, rfl⟩ | ⟨rfl, rfl⟩
    · decide
    · decide
  obtain ⟨unnamed, digit, marked, wide⟩ := facts
  have other : CodePoint.ofChar 'u' ≠ CodePoint.ofChar 'x' := by decide
  have taken := takeUpTo_append h.length_eq h.isHexDigit rest
  simp only [escape, unnamed, marked, if_neg other, digit, Bool.false_eq_true, if_false,
    if_true, wide, taken, h.length_eq, h.numberOf_eq (le_refl 16), if_pos c.val_lt, charOf_val]

/-- An escape is decoded to its character, and what follows it is decoded next. -/
theorem unescape_digits {c e : CodePoint} {digits rest : Text}
    (h : escape e (digits ++ rest) = ([c], digits.length)) :
    unescape (CodePoint.ofChar '\\' :: e :: (digits ++ rest)) = c :: unescape rest := by
  rw [unescape, if_pos rfl, h]
  simp only [List.drop_left, List.singleton_append]

/-- **Decoding undoes spelling.** -/
theorem CharSpelling.unescape_append {quote c : CodePoint} {t : Text} (h : CharSpelling quote c t)
    (rest : Text) : unescape (t ++ rest) = c :: unescape rest := by
  cases h with
  | plain _ unescaped => exact unescape_cons unescaped rest
  | named listed => exact unescape_escape (simpleEscape?_of_mem listed) rest
  | @octal _ digits spells =>
    cases digits with
    | nil => exact absurd spells.length_eq (by simp)
    | cons e digits => exact unescape_digits (escape_octal spells rest)
  | byte marked spells => exact unescape_digits (escape_byte marked spells rest)
  | short spells => exact unescape_digits (escape_wide (Or.inl ⟨rfl, rfl⟩) spells rest)
  | long spells => exact unescape_digits (escape_wide (Or.inr ⟨rfl, rfl⟩) spells rest)

theorem unescape_spelled {quote : CodePoint} {s : Text} {spellings : List Text}
    (h : List.Forall₂ (CharSpelling quote) s spellings) : unescape spellings.flatten = s := by
  induction h with
  | nil => rw [List.flatten_nil, unescape]
  | cons spelled _ ih => rw [List.flatten_cons, spelled.unescape_append, ih]

/-! ### The count from the back -/

theorem endsInEscape_concat (t : Text) {c : CodePoint} (h : c ≠ CodePoint.ofChar '\\') :
    endsInEscape (t ++ [c]) = false := by
  rw [endsInEscape, List.reverse_append, List.reverse_singleton, List.singleton_append,
    List.takeWhile_cons_of_neg (by simpa using h)]
  rfl

/-- A pair of backslashes leaves the parity as it is. -/
theorem endsInEscape_pair (t : Text) :
    endsInEscape (t ++ [CodePoint.ofChar '\\', CodePoint.ofChar '\\']) = endsInEscape t := by
  have pair : ∀ n, ((n + 1 + 1) % 2 = 1) ↔ (n % 2 = 1) := by omega
  simp only [endsInEscape, List.reverse_append, List.reverse_cons, List.reverse_nil,
    List.nil_append, List.cons_append, List.takeWhile_cons, decide_true, if_true,
    List.length_cons, pair]

theorem CharSpelling.endsInEscape_append {quote c : CodePoint} {t : Text}
    (hq : Segment.isQuote quote = true) (h : CharSpelling quote c t) {before : Text}
    (even : endsInEscape before = false) : endsInEscape (before ++ t) = false := by
  rcases h.shape hq with ⟨d, rfl, inert⟩ | ⟨e, digits, rfl, inert⟩
  · exact endsInEscape_concat before inert.2
  · rcases List.eq_nil_or_concat' digits with rfl | ⟨front, d, rfl⟩
    · by_cases backslash : e = CodePoint.ofChar '\\'
      · rw [backslash, endsInEscape_pair, even]
      · have last := endsInEscape_concat (before ++ [CodePoint.ofChar '\\']) backslash
        rwa [List.append_assoc] at last
    · have last := endsInEscape_concat (before ++ CodePoint.ofChar '\\' :: e :: front)
        (inert d (by simp)).2
      rwa [List.append_assoc] at last

/-- No backslash is left over at the end of spellings. -/
theorem endsInEscape_spelled {quote : CodePoint} (hq : Segment.isQuote quote = true) {s : Text}
    {spellings : List Text} (h : List.Forall₂ (CharSpelling quote) s spellings) (before : Text)
    (even : endsInEscape before = false) : endsInEscape (before ++ spellings.flatten) = false := by
  induction h generalizing before with
  | nil => simpa using even
  | cons spelled _ ih =>
    rw [List.flatten_cons, ← List.append_assoc]
    exact ih _ (spelled.endsInEscape_append hq even)

end Literal

/-! ### The scan for the closing quote -/

namespace Segment

open Literal

theorem stringLength_inert {quote d : CodePoint} (h : Inert quote d) {rest : Text}
    (ne : rest ≠ []) : stringLength quote (d :: rest) = 1 + stringLength quote rest := by
  cases rest with
  | nil => exact absurd rfl ne
  | cons e rest => rw [stringLength, if_neg h.1, if_neg h.2]

theorem stringLength_inerts {quote : CodePoint} {digits : Text} (h : ∀ d ∈ digits, Inert quote d)
    {rest : Text} (ne : rest ≠ []) :
    stringLength quote (digits ++ rest) = digits.length + stringLength quote rest := by
  induction digits with
  | nil => rw [List.nil_append, List.length_nil, Nat.zero_add]
  | cons d digits ih =>
    rw [List.cons_append, stringLength_inert (h d List.mem_cons_self) (by simp [ne]),
      ih fun e he => h e (List.mem_cons_of_mem d he), List.length_cons]
    omega

/-- The scan passes over a spelling as a whole. -/
theorem stringLength_spelling {quote c : CodePoint} {t : Text} (hq : isQuote quote = true)
    (h : CharSpelling quote c t) {rest : Text} (ne : rest ≠ []) :
    stringLength quote (t ++ rest) = t.length + stringLength quote rest := by
  rcases h.shape hq with ⟨d, rfl, inert⟩ | ⟨e, digits, rfl, inert⟩
  · exact stringLength_inert inert ne
  · have unquoted : CodePoint.ofChar '\\' ≠ quote := by
      rintro rfl
      exact absurd hq (by decide)
    rw [List.cons_append, List.cons_append, stringLength, if_neg unquoted, if_pos rfl,
      stringLength_inerts inert ne, List.length_cons, List.length_cons]
    omega

/-- The scan ends behind the closing quote. -/
theorem stringLength_spelled {quote : CodePoint} (hq : isQuote quote = true) {s : Text}
    {spellings : List Text} (h : List.Forall₂ (CharSpelling quote) s spellings) :
    stringLength quote (spellings.flatten ++ [quote]) = spellings.flatten.length + 1 := by
  induction h with
  | nil => rfl
  | cons spelled _ ih =>
    rw [List.flatten_cons, List.append_assoc, stringLength_spelling hq spelled (by simp), ih,
      List.length_append, Nat.add_assoc]

/-- A literal of spellings is one segment. -/
theorem segments_spelled {quote : CodePoint} (hq : isQuote quote = true) {s : Text}
    {spellings : List Text} (h : List.Forall₂ (CharSpelling quote) s spellings) :
    segments (quote :: spellings.flatten ++ [quote]) =
      [⟨.token .string, quote :: spellings.flatten ++ [quote]⟩] := by
  have whole : (spellings.flatten ++ [quote]).length = stringLength quote
      (spellings.flatten ++ [quote]) := by
    rw [stringLength_spelled hq h, List.length_append, List.length_singleton]
  rw [List.cons_append, segments, classify_quote hq]
  simp only [← whole, List.take_length, List.drop_length]
  rw [segments]

end Segment

namespace Literal

theorem stringValue_spelled {quote : CodePoint} (hq : Segment.isQuote quote = true) {s : Text}
    {spellings : List Text} (h : List.Forall₂ (CharSpelling quote) s spellings) :
    stringValue (quote :: spellings.flatten ++ [quote]) = s := by
  have opening : quote = CodePoint.ofChar '"' ∨ quote = CodePoint.ofChar '\'' := by
    simpa [Segment.isQuote] using hq
  have closing : endsInEscape spellings.flatten = false :=
    endsInEscape_spelled hq h [] rfl
  rw [List.cons_append, stringValue, if_pos opening, dropClosingQuote, List.getLast?_concat,
    List.dropLast_concat, closing, if_pos (by simp)]
  exact unescape_spelled h

/-- **Every spelling is read back.**  Between two equal quotes, spellings of the characters
of a text, each chosen freely, are exactly one string token that covers them, and the value
of the string is the text. -/
theorem spelled_literal_reads_back {quote : CodePoint} (hq : Segment.isQuote quote = true)
    {s : Text} {spellings : List Text} (h : List.Forall₂ (CharSpelling quote) s spellings) :
    let literal := quote :: spellings.flatten ++ [quote]
    let finish := Position.zero.after literal
    (TokenStream.ofText literal).all =
        [⟨.string, literal, ⟨Position.zero, finish⟩, none, none⟩,
          ⟨.endOfFile, [], ⟨finish, finish⟩, none, none⟩] ∧
      stringValue literal = s := by
  refine ⟨?_, stringValue_spelled hq h⟩
  rw [TokenStream.all, TokenStream.ofText, Segment.segments_spelled hq h]
  rfl

/-- Every kind of spelling in one literal; the digit after the octal escape is a character
of its own. -/
theorem spelled_literal_of_every_kind :
    Segment.isQuote (CodePoint.ofChar '\'') = true ∧
      List.Forall₂ (CharSpelling (CodePoint.ofChar '\'')) "\"'\\A7é€😀"
        ["\"", "\\'", "\\\\", "\\101", "7", "\\Xe9", "\\u20aC", "\\U0001F600"] ∧
      (TokenStream.ofText "'\"\\'\\\\\\1017\\Xe9\\u20aC\\U0001F600'").all =
        [⟨.string, "'\"\\'\\\\\\1017\\Xe9\\u20aC\\U0001F600'", ⟨⟨0, 0⟩, ⟨0, 32⟩⟩, none, none⟩,
          ⟨.endOfFile, [], ⟨⟨0, 32⟩, ⟨0, 32⟩⟩, none, none⟩] ∧
      stringValue "'\"\\'\\\\\\1017\\Xe9\\u20aC\\U0001F600'" = "\"'\\A7é€😀" := by
  have hq : Segment.isQuote (CodePoint.ofChar '\'') = true := by decide
  have h : List.Forall₂ (CharSpelling (CodePoint.ofChar '\'')) "\"'\\A7é€😀"
      ["\"", "\\'", "\\\\", "\\101", "7", "\\Xe9", "\\u20aC", "\\U0001F600"] := by
    refine .cons (.plain (by decide) (by decide)) (.cons (.named (by decide))
      (.cons (.named (by decide)) (.cons (.octal ⟨[1, 0, 1], ?_, rfl, rfl⟩)
        (.cons (.plain (by decide) (by decide)) (.cons (.byte (Or.inr rfl) ⟨[14, 9], ?_, rfl, rfl⟩)
          (.cons (.short ⟨[2, 0, 10, 12], ?_, rfl, rfl⟩)
            (.cons (.long ⟨[0, 0, 0, 1, 15, 6, 0, 0], ?_, rfl, rfl⟩) .nil)))))))
    all_goals decide
  exact ⟨hq, h, spelled_literal_reads_back hq h⟩

end Literal
end ProtoAtlas
