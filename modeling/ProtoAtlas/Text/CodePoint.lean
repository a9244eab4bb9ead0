/-
# Code points and text

A text is a list of code points, and every column and length of the library
counts code points.  A code point is any number below `0x110000`, so the
surrogates `0xD800 … 0xDFFF` are included: an escape sequence inside a string
literal can name one, and two different surrogates are two different texts.

`Char` and `String` embed into code points and text; the way back,
`CodePoint.toChar`, shows a surrogate as the replacement character `U+FFFD`.
-/

namespace ProtoAtlas

/-- A Unicode code point, surrogates included. -/
structure CodePoint where
  /-- The number of the code point. -/
  val : Nat
  /-- Code points end at `U+10FFFF`. -/
  val_lt : val < 0x110000

namespace CodePoint

@[ext] theorem ext {a b : CodePoint} (h : a.val = b.val) : a = b := by
  cases a; cases b; cases h; rfl

instance : DecidableEq CodePoint := fun a b =>
  if h : a.val = b.val then isTrue (CodePoint.ext h) else isFalse fun e => h (e ▸ rfl)

instance : Hashable CodePoint := ⟨fun c => hash c.val⟩

instance : Inhabited CodePoint := ⟨⟨0, by decide⟩⟩

/-- A character is a code point that is not a surrogate. -/
def ofChar (c : Char) : CodePoint :=
  ⟨c.toNat, by
    have h := c.valid
    change c.toNat < 0xD800 ∨ 0xDFFF < c.toNat ∧ c.toNat < 0x110000 at h
    omega⟩

instance : Coe Char CodePoint := ⟨ofChar⟩

/-- The code point with a given number, if the number is in range. -/
def ofNat? (n : Nat) : Option CodePoint :=
  if h : n < 0x110000 then some ⟨n, h⟩ else none

/-- The code points that stand for no character of their own. -/
def isSurrogate (c : CodePoint) : Bool :=
  0xD800 ≤ c.val && c.val ≤ 0xDFFF

/-- The replacement character `U+FFFD`. -/
def replacement : CodePoint := ⟨0xFFFD, by decide⟩

/-- The character to show for a code point; `U+FFFD` stands for a surrogate. -/
def toChar (c : CodePoint) : Char :=
  if c.isSurrogate then Char.ofNat 0xFFFD else Char.ofNat c.val

/-- Whether a code point lies between two characters, both included. -/
def between (low high : Char) (c : CodePoint) : Bool :=
  low.toNat ≤ c.val && c.val ≤ high.toNat

/-- The letters `a … z` and `A … Z`. -/
def isLetter (c : CodePoint) : Bool :=
  c.between 'a' 'z' || c.between 'A' 'Z'

/-- The digits `0 … 9`. -/
def isAsciiDigit (c : CodePoint) : Bool :=
  c.between '0' '9'

/-- The digits `0 … 7`. -/
def isOctalDigit (c : CodePoint) : Bool :=
  c.between '0' '7'

/-- The digits `0 … 9`, `a … f` and `A … F`. -/
def isHexDigit (c : CodePoint) : Bool :=
  c.isAsciiDigit || c.between 'a' 'f' || c.between 'A' 'F'

/-- The value of a hexadecimal digit, and `0` for any other code point. -/
def hexValue (c : CodePoint) : Nat :=
  if c.isAsciiDigit then c.val - '0'.toNat
  else if c.between 'a' 'f' then c.val - 'a'.toNat + 10
  else if c.between 'A' 'F' then c.val - 'A'.toNat + 10
  else 0

/-- The lower-case form of a letter `A … Z`; every other code point stays. -/
def toLower (c : CodePoint) : CodePoint :=
  if h : 'A'.toNat ≤ c.val ∧ c.val ≤ 'Z'.toNat then
    ⟨c.val + 32, by have h2 : c.val ≤ 90 := h.2; omega⟩
  else c

end CodePoint

/-- A sequence of code points. -/
abbrev Text := List CodePoint

namespace Text

/-- The code points of a string. -/
def ofString (s : String) : Text :=
  s.toList.map CodePoint.ofChar

instance : Coe String Text := ⟨ofString⟩

/-- The string that shows a text. -/
def render (t : Text) : String :=
  String.ofList (t.map CodePoint.toChar)

/-- Letters `A … Z` become `a … z`. -/
def lower (t : Text) : Text :=
  t.map CodePoint.toLower

/-- Decimal digits of a natural number. -/
def ofNat (n : Nat) : Text :=
  (Nat.toDigits 10 n).map CodePoint.ofChar

/-- Texts with a separator between neighbours. -/
def join (separator : Text) (parts : List Text) : Text :=
  List.intercalate separator parts

/-- The pieces of a text between the occurrences of a code point.  A text
without the code point is one piece, so the result is never empty. -/
def splitOn (separator : CodePoint) : Text → List Text
  | [] => [[]]
  | c :: cs =>
    if c = separator then [] :: splitOn separator cs
    else
      match splitOn separator cs with
      | [] => [[c]]
      | piece :: pieces => (c :: piece) :: pieces

theorem splitOn_ne_nil (separator : CodePoint) (t : Text) : splitOn separator t ≠ [] := by
  cases t with
  | nil => simp [splitOn]
  | cons c cs =>
    rw [splitOn]
    split
    · simp
    · split <;> simp

/-- **Cutting loses nothing.**  The pieces with the code point put back
between them are the text. -/
theorem join_splitOn (separator : CodePoint) (t : Text) :
    join [separator] (splitOn separator t) = t := by
  induction t with
  | nil => rfl
  | cons c cs ih =>
    rw [splitOn]
    split
    · next h =>
      cases hs : splitOn separator cs with
      | nil => exact absurd hs (splitOn_ne_nil _ _)
      | cons piece pieces =>
        rw [hs] at ih
        simp [join, List.intercalate, List.intersperse] at ih ⊢
        exact ⟨h.symm, ih⟩
    · cases hs : splitOn separator cs with
      | nil => exact absurd hs (splitOn_ne_nil _ _)
      | cons piece pieces =>
        rw [hs] at ih
        cases pieces with
        | nil => simpa [join, List.intercalate, List.intersperse] using ih
        | cons p ps => simpa [join, List.intercalate, List.intersperse] using ih

/-- Removes from both ends the code points a class holds of. -/
def strip (p : CodePoint → Bool) (t : Text) : Text :=
  ((t.dropWhile p).reverse.dropWhile p).reverse

/-- Removes the longest tail made of code points a class holds of. -/
def dropEndWhile (p : CodePoint → Bool) (t : Text) : Text :=
  (t.reverse.dropWhile p).reverse

/-- Every occurrence of one code point becomes another. -/
def replace (old new : CodePoint) (t : Text) : Text :=
  t.map fun c => if c = old then new else c

/-- The text without a given beginning, if it has that beginning. -/
def dropPrefix? (start : Text) (t : Text) : Option Text :=
  if start.isPrefixOf t then some (t.drop start.length) else none

/-- Fills a text with blanks on the right up to a width. -/
def padRight (width : Nat) (t : Text) : Text :=
  t ++ List.replicate (width - t.length) (' ' : CodePoint)

end Text

end ProtoAtlas
