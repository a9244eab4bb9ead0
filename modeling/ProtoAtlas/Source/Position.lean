/-
# Places in a document

A position is a zero-based line and a zero-based character on that line, both
counted in code points; only a line feed ends a line.  A span runs from one
position to another.

Points and intervals are generic in the number they are made of: a document has
natural numbers only, while a request from outside may hold any integer.
-/

import ProtoAtlas.Text.CodePoint

namespace ProtoAtlas

/-- A line and a character on it. -/
structure Point (ν : Type) where
  line : ν
  character : ν
  deriving DecidableEq

namespace Point

variable {ν : Type}

/-- Points are ordered by line, and on one line by character. -/
def precedes [LT ν] [LE ν] (a b : Point ν) : Prop :=
  a.line < b.line ∨ a.line = b.line ∧ a.character ≤ b.character

instance [LT ν] [LE ν] : LE (Point ν) := ⟨precedes⟩

instance [DecidableEq ν] [LT ν] [LE ν] [DecidableLT ν] [DecidableLE ν] (a b : Point ν) :
    Decidable (a ≤ b) :=
  inferInstanceAs (Decidable (a.line < b.line ∨ a.line = b.line ∧ a.character ≤ b.character))

end Point

/-- Two points, the first and the last of a stretch. -/
structure Interval (ν : Type) where
  start : Point ν
  stop : Point ν
  deriving DecidableEq

/-- Whether a point lies between the ends of an interval, ends included. -/
def Interval.contains {ν : Type} [DecidableEq ν] [LT ν] [LE ν] [DecidableLT ν] [DecidableLE ν]
    (i : Interval ν) (p : Point ν) : Bool :=
  decide (i.start ≤ p) && decide (p ≤ i.stop)

/-- A place in a document. -/
abbrev Position := Point Nat

/-- A stretch of a document. -/
abbrev Span := Interval Nat

namespace Position

/-- The first place of every document. -/
def zero : Position := ⟨0, 0⟩

/-- The place after one code point. -/
def step (p : Position) (c : CodePoint) : Position :=
  if c = CodePoint.ofChar '\n' then ⟨p.line + 1, 0⟩ else ⟨p.line, p.character + 1⟩

/-- The place after a text. -/
def after (p : Position) (t : Text) : Position :=
  t.foldl step p

@[simp] theorem after_nil (p : Position) : p.after [] = p := rfl

@[simp] theorem after_cons (p : Position) (c : CodePoint) (t : Text) :
    p.after (c :: t) = (p.step c).after t := rfl

theorem after_append (p : Position) (s t : Text) : p.after (s ++ t) = (p.after s).after t :=
  List.foldl_append

/-- One-based line and character, separated by a colon. -/
def text (p : Position) : Text :=
  Text.ofNat (p.line + 1) ++ ":" ++ Text.ofNat (p.character + 1)

end Position

namespace Span

/-- The span at the start of a document that covers nothing. -/
def empty : Span := ⟨Position.zero, Position.zero⟩

/-- The span of a whole document. -/
def ofText (t : Text) : Span := ⟨Position.zero, Position.zero.after t⟩

/-- Zero-based first and last position. -/
def text (s : Span) : Text :=
  "Range(" ++ Text.ofNat s.start.line ++ ":" ++ Text.ofNat s.start.character ++ "-" ++
    Text.ofNat s.stop.line ++ ":" ++ Text.ofNat s.stop.character ++ ")"

end Span

end ProtoAtlas
