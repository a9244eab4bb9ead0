/-
# Segments of a source text

A source text is cut into segments from left to right: white space one
character at a time, comments, tokens, and stray characters that start no
token.  Cutting loses nothing (`flatten_segments`), and each segment depends
only on the text from its first character on.

| segment | first characters | reaches to |
| --- | --- | --- |
| line comment | `//` | before the next line feed |
| block comment | `/*` | after the next `*/`, or the end of the text |
| string | `"` or `'` | after the same quote, unless a backslash stands before it; or the end |
| number | digit, `.` digit, each after an optional sign | see `numberLength` |
| identifier | letter or `_` | the last of letters, digits and `_` |
| punctuation | one of fifteen characters | itself |
-/

import ProtoAtlas.Text.Blank
import ProtoAtlas.Text.Digit

namespace ProtoAtlas

/-- The kinds of token. -/
inductive TokenKind where
  | identifier
  | number
  | string
  | leftBrace
  | rightBrace
  | leftBracket
  | rightBracket
  | leftParen
  | rightParen
  | leftAngle
  | rightAngle
  | semicolon
  | comma
  | equals
  | dot
  | colon
  | minus
  | plus
  | endOfFile
  deriving DecidableEq

/-- What a segment is. -/
inductive Shape where
  | blank
  | lineComment
  | blockComment
  | token (kind : TokenKind)
  | stray
  deriving DecidableEq

/-- A stretch of source text. -/
structure Segment where
  shape : Shape
  text : Text
  deriving DecidableEq

namespace Segment

/-- The characters that start and end a string. -/
def isQuote (c : CodePoint) : Bool :=
  c = CodePoint.ofChar '"' || c = CodePoint.ofChar '\''

/-- The characters `+` and `-`. -/
def isSign (c : CodePoint) : Bool :=
  c = CodePoint.ofChar '+' || c = CodePoint.ofChar '-'

/-- The characters that can start an identifier. -/
def isIdentifierStart (c : CodePoint) : Bool :=
  c.isLetter || c = CodePoint.ofChar '_'

/-- The characters that can continue an identifier. -/
def isIdentifierPart (c : CodePoint) : Bool :=
  c.isLetter || c.isDigit || c = CodePoint.ofChar '_'

/-- The punctuation characters and their kinds. -/
def marks : List (Char × TokenKind) :=
  [('{', .leftBrace), ('}', .rightBrace), ('[', .leftBracket), (']', .rightBracket),
    ('(', .leftParen), (')', .rightParen), ('<', .leftAngle), ('>', .rightAngle),
    (';', .semicolon), (',', .comma), ('=', .equals), ('.', .dot), (':', .colon),
    ('-', .minus), ('+', .plus)]

/-- The kind of a punctuation character. -/
def punctuation? (c : CodePoint) : Option TokenKind :=
  (marks.find? fun m => c = CodePoint.ofChar m.1).map (·.2)

/-- How many characters in front satisfy a test. -/
def runLength (p : CodePoint → Bool) (t : Text) : Nat :=
  (t.takeWhile p).length

/-- The characters of a string after its opening quote.  A backslash takes the
character after it along. -/
def stringLength (quote : CodePoint) : Text → Nat
  | [] => 0
  | [_] => 1
  | c :: d :: cs =>
    if c = quote then 1
    else if c = CodePoint.ofChar '\\' then 2 + stringLength quote cs
    else 1 + stringLength quote (d :: cs)

/-- The text of a block comment after its opening `/*`, up to the `*/`. -/
def blockBody : Text → Text
  | [] => []
  | [c] => [c]
  | c :: d :: cs =>
    if c = CodePoint.ofChar '*' ∧ d = CodePoint.ofChar '/' then []
    else c :: blockBody (d :: cs)

/-- The characters of a block comment after its opening `/*`. -/
def blockLength (t : Text) : Nat :=
  let body := (blockBody t).length
  if body < t.length then body + 2 else body

/-- Whether a text starts with a digit, or with a point and a digit. -/
def startsUnsigned : Text → Bool
  | [] => false
  | c :: cs =>
    c.isDigit || (c = CodePoint.ofChar '.' && (cs.head?.map CodePoint.isDigit).getD false)

/-- The exponent of a number: `e`, an optional sign, and digits.  The digits may
be missing. -/
def exponentLength : Text → Nat
  | [] => 0
  | c :: cs =>
    if c = CodePoint.ofChar 'e' ∨ c = CodePoint.ofChar 'E' then
      match cs with
      | [] => 1
      | d :: ds =>
        if isSign d then 2 + runLength CodePoint.isDigit ds
        else 1 + runLength CodePoint.isDigit (d :: ds)
    else 0

/-- A number in base ten or eight: digits and points, then an exponent. -/
def decimalLength (t : Text) : Nat :=
  let digits := runLength (fun c => c.isDigit || c = CodePoint.ofChar '.') t
  digits + exponentLength (t.drop digits)

/-- A number without its sign.  After `0x` only hexadecimal digits follow, and
they may be missing. -/
def numberLength (t : Text) : Nat :=
  match t with
  | zero :: mark :: rest =>
    if zero = CodePoint.ofChar '0' ∧
        (mark = CodePoint.ofChar 'x' ∨ mark = CodePoint.ofChar 'X') then
      2 + runLength CodePoint.isHexDigit rest
    else decimalLength t
  | _ => decimalLength t

/-- The shape of the segment that starts a text, and how many characters it has
after its first one. -/
def classify (c : CodePoint) (cs : Text) : Shape × Nat :=
  if c.isBlank then (.blank, 0)
  else if c = CodePoint.ofChar '/' ∧ cs.head? = some (CodePoint.ofChar '/') then
    (.lineComment, runLength (· ≠ CodePoint.ofChar '\n') cs)
  else if c = CodePoint.ofChar '/' ∧ cs.head? = some (CodePoint.ofChar '*') then
    (.blockComment, 1 + blockLength cs.tail)
  else if isQuote c then (.token .string, stringLength c cs)
  else if startsUnsigned (c :: cs) then (.token .number, numberLength (c :: cs) - 1)
  else if isSign c && startsUnsigned cs then (.token .number, numberLength cs)
  else if isIdentifierStart c then (.token .identifier, runLength isIdentifierPart cs)
  else
    match punctuation? c with
    | some kind => (.token kind, 0)
    | none => (.stray, 0)

/-- The segments of a text, in order. -/
def segments (t : Text) : List Segment :=
  match t with
  | [] => []
  | c :: cs =>
    let (shape, more) := classify c cs
    ⟨shape, c :: cs.take more⟩ :: segments (cs.drop more)
termination_by t.length
decreasing_by
  simp only [List.length_drop, List.length_cons]
  omega

/-- **Cutting loses nothing.**  The segments in order are the text. -/
theorem flatten_segments (t : Text) : (segments t).flatMap text = t := by
  fun_induction segments t with
  | case1 => rfl
  | case2 c cs shape more _ ih => simp [ih]

/-- No segment is empty. -/
theorem text_ne_nil_of_mem_segments {t : Text} {s : Segment} (h : s ∈ segments t) :
    s.text ≠ [] := by
  fun_induction segments t with
  | case1 => cases h
  | case2 c cs shape more _ ih =>
    rcases List.mem_cons.1 h with rfl | h
    · simp
    · exact ih h

end Segment

end ProtoAtlas
