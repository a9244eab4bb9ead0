/-
# The lexemes of a printed tree

The marks of a name cut it into its words (`pieces_append_mark`), so a path is
printed as its words with dots between them (`pieces_join`), and so is an option
name, part by part.

Every lexeme of a well-formed tree is separable (`Item.WellFormed.separable`): the
words are identifiers, the marks are in the table of marks, and the literals are
those that `Proofs.Source.Spaced` knows.
-/

import ProtoAtlas.Proofs.Schema.Printed

namespace ProtoAtlas

open Lexeme (word mark pieces separated Separable)

/-! ### Cutting names -/

/-- A character of an identifier is no mark. -/
theorem Segment.punctuation?_of_isIdentifierPart {c : CodePoint} (h : isIdentifierPart c = true) :
    punctuation? c = none := by
  rw [Option.eq_none_iff_forall_not_mem]
  intro kind found
  obtain ⟨m, listed, rfl⟩ := mem_marks_of_punctuation? found
  have letters : ∀ mark ∈ marks, isIdentifierPart (CodePoint.ofChar mark.1) = false := by decide
  rw [letters (m, kind) listed] at h
  cases h

theorem Segment.isIdentifierPart_of_isIdentifierStart {c : CodePoint}
    (h : isIdentifierStart c = true) : isIdentifierPart c = true := by
  rw [isIdentifierStart, Bool.or_eq_true] at h
  rw [isIdentifierPart, Bool.or_eq_true, Bool.or_eq_true]
  exact h.imp_left Or.inl

theorem Text.isIdentifierPart_of_mem {t : Text} (h : t.isIdentifier = true) {c : CodePoint}
    (hc : c ∈ t) : Segment.isIdentifierPart c = true := by
  cases t with
  | nil => cases h
  | cons d ds =>
    rw [Text.isIdentifier, Bool.and_eq_true, List.all_eq_true] at h
    rcases List.mem_cons.1 hc with rfl | hc
    · exact Segment.isIdentifierPart_of_isIdentifierStart h.1
    · exact h.2 c hc

namespace Lexeme

/-- **A mark cuts a name.** -/
theorem pieces_append_mark (s t : Text) {m : CodePoint} {kind : TokenKind}
    (h : Segment.punctuation? m = some kind) :
    pieces (s ++ m :: t) = pieces s ++ ⟨kind, [m]⟩ :: pieces t := by
  have proper : kind ≠ .identifier := by
    obtain ⟨_, listed, -⟩ := Segment.mem_marks_of_punctuation? h
    exact (Segment.kind_of_mem_marks listed).1
  induction s with
  | nil =>
    change pieces (m :: t) = ⟨kind, [m]⟩ :: pieces t
    rw [pieces, h]
  | cons c cs ih =>
    rw [List.cons_append, pieces, pieces]
    cases Segment.punctuation? c with
    | some k => rw [ih, List.cons_append]
    | none =>
      rw [ih]
      cases hp : pieces cs with
      | nil =>
        dsimp only [List.nil_append]
        split
        · next same =>
          rw [List.cons.injEq, Lexeme.mk.injEq] at same
          exact absurd same.1.1 proper
        · rfl
      | cons l ls =>
        rw [List.cons_append]
        obtain ⟨k, text⟩ := l
        cases k <;> rfl

theorem pieces_of_unmarked {c : CodePoint} {cs : Text}
    (h : ∀ d ∈ c :: cs, Segment.punctuation? d = none) : pieces (c :: cs) = [word (c :: cs)] := by
  induction cs generalizing c with
  | nil =>
    rw [pieces, h c List.mem_cons_self]
    rfl
  | cons d ds ih =>
    rw [pieces, h c List.mem_cons_self, ih fun e he => h e (List.mem_cons_of_mem c he)]
    rfl

/-- An identifier is one piece. -/
theorem pieces_identifier {t : Text} (h : t.isIdentifier = true) : pieces t = [word t] := by
  cases t with
  | nil => cases h
  | cons c cs =>
    exact pieces_of_unmarked fun d hd =>
      Segment.punctuation?_of_isIdentifierPart (Text.isIdentifierPart_of_mem h hd)

/-- Parts that are joined by dots are cut apart at the dots between them. -/
theorem pieces_join (part : Text) (parts : List Text) :
    pieces (Text.join "." (part :: parts)) = separated .dot ((part :: parts).map pieces) := by
  induction parts generalizing part with
  | nil => simp [Text.join, separated]
  | cons next parts ih =>
    have cut : Text.join "." (part :: next :: parts) =
        part ++ CodePoint.ofChar '.' :: Text.join "." (next :: parts) := by
      simp only [Text.join, List.intercalate, List.intersperse, List.flatten_cons]
      rfl
    rw [cut, pieces_append_mark _ _ (show Segment.punctuation? _ = some .dot by decide), ih]
    rfl

/-- The lexemes of separated lists are theirs and the separators. -/
theorem mem_separated {kind : TokenKind} {parts : List (List Lexeme)} {l : Lexeme}
    (h : l ∈ separated kind parts) : l = mark kind ∨ ∃ part ∈ parts, l ∈ part := by
  induction parts with
  | nil => cases h
  | cons part parts ih =>
    cases parts with
    | nil => exact Or.inr ⟨part, List.mem_cons_self, h⟩
    | cons next parts =>
      rcases List.mem_append.1 h with h | h
      · exact Or.inr ⟨part, List.mem_cons_self, h⟩
      · rcases List.mem_cons.1 h with rfl | h
        · exact Or.inl rfl
        · rcases ih h with h | ⟨p, hp, h⟩
          · exact Or.inl h
          · exact Or.inr ⟨p, List.mem_cons_of_mem part hp, h⟩

end Lexeme

/-! ### Paths and references -/

namespace Text

variable {P : Text → Prop} {t : Text}

theorem IsPath.pieces_eq (h : t.IsPath P) :
    ∃ first rest, P first ∧ (∀ part ∈ first :: rest, Text.isIdentifier part = true) ∧
      t = Text.join "." (first :: rest) ∧
      pieces t = separated .dot ((first :: rest).map fun part => [word part]) := by
  obtain ⟨first, rest, hP, identifiers, rfl⟩ := h
  refine ⟨first, rest, hP, identifiers, rfl, ?_⟩
  rw [Lexeme.pieces_join]
  congr 1
  exact List.map_congr_left fun part hpart => Lexeme.pieces_identifier (identifiers part hpart)

/-- A dot in front of a path is a piece of its own. -/
theorem pieces_dot (path : Text) :
    pieces (CodePoint.ofChar '.' :: path) = mark .dot :: pieces path := by
  rw [pieces, show Segment.punctuation? (CodePoint.ofChar '.') = some .dot by decide]
  rfl

/-- A reference starts with a dot or with a word that satisfies `P`. -/
theorem IsReference.pieces_cons (h : t.IsReference P) :
    ∃ l ls, pieces t = l :: ls ∧ (l = mark .dot ∨ ∃ first, P first ∧ l = word first) := by
  rcases h with path | ⟨path, -, rfl⟩
  · obtain ⟨first, rest, hP, -, -, written⟩ := path.pieces_eq
    cases rest with
    | nil => exact ⟨_, _, written, Or.inr ⟨first, hP, rfl⟩⟩
    | cons next rest => exact ⟨_, _, written, Or.inr ⟨first, hP, rfl⟩⟩
  · exact ⟨_, _, pieces_dot path, Or.inl rfl⟩

/-- A path has no lexemes but words and dots. -/
theorem IsPath.kind_of_mem (h : t.IsPath P) {l : Lexeme} (hl : l ∈ pieces t) :
    l.kind = .identifier ∨ l.kind = .dot := by
  obtain ⟨first, rest, -, -, -, written⟩ := h.pieces_eq
  rw [written] at hl
  rcases Lexeme.mem_separated hl with rfl | ⟨part, hpart, hl⟩
  · exact Or.inr rfl
  · obtain ⟨w, -, rfl⟩ := List.mem_map.1 hpart
    rw [List.mem_singleton.1 hl]
    exact Or.inl rfl

/-- A reference has no lexemes but words and dots. -/
theorem IsReference.kind_of_mem (h : t.IsReference P) {l : Lexeme} (hl : l ∈ pieces t) :
    l.kind = .identifier ∨ l.kind = .dot := by
  rcases h with path | ⟨path, isPath, rfl⟩
  · exact path.kind_of_mem hl
  · rw [pieces_dot] at hl
    rcases List.mem_cons.1 hl with rfl | hl
    · exact Or.inr rfl
    · exact isPath.kind_of_mem hl

end Text

/-! ### Separable names and values -/

namespace Lexeme

/-- Lexemes that are all separable. -/
def AllSeparable (ls : List Lexeme) : Prop :=
  ∀ l ∈ ls, l.Separable

theorem AllSeparable.nil : AllSeparable [] := by
  intro l hl
  cases hl

theorem AllSeparable.cons {l : Lexeme} {ls : List Lexeme} (h : l.Separable)
    (hs : AllSeparable ls) : AllSeparable (l :: ls) := by
  intro x hx
  rcases List.mem_cons.1 hx with rfl | hx
  · exact h
  · exact hs x hx

theorem AllSeparable.append {ls ks : List Lexeme} (hl : AllSeparable ls) (hk : AllSeparable ks) :
    AllSeparable (ls ++ ks) := by
  intro x hx
  rcases List.mem_append.1 hx with hx | hx
  · exact hl x hx
  · exact hk x hx

theorem AllSeparable.flatMap {α : Type} {items : List α} {f : α → List Lexeme}
    (h : ∀ a ∈ items, AllSeparable (f a)) : AllSeparable (items.flatMap f) := by
  intro x hx
  obtain ⟨a, ha, hx⟩ := List.mem_flatMap.1 hx
  exact h a ha x hx

/-- The punctuation of every kind in the table. -/
theorem separable_punctuation {m : Char} {kind : TokenKind}
    (h : Segment.marks.find? (·.2 = kind) = some (m, kind)) : (mark kind).Separable := by
  have written : mark kind = ⟨kind, [CodePoint.ofChar m]⟩ := by
    rw [mark, h]
    rfl
  rw [written]
  exact separable_mark (List.mem_of_find?_eq_some h)

theorem AllSeparable.word {t : Text} {ls : List Lexeme} (h : t.isIdentifier = true)
    (hs : AllSeparable ls) : AllSeparable (Lexeme.word t :: ls) :=
  .cons (separable_identifier h) hs

theorem AllSeparable.mark {m : Char} {kind : TokenKind} {ls : List Lexeme}
    (h : Segment.marks.find? (·.2 = kind) = some (m, kind)) (hs : AllSeparable ls) :
    AllSeparable (Lexeme.mark kind :: ls) :=
  .cons (separable_punctuation h) hs

theorem AllSeparable.separated {m : Char} {kind : TokenKind} {parts : List (List Lexeme)}
    (h : Segment.marks.find? (·.2 = kind) = some (m, kind))
    (hs : ∀ part ∈ parts, AllSeparable part) : AllSeparable (Lexeme.separated kind parts) := by
  intro l hl
  rcases mem_separated hl with rfl | ⟨part, hpart, hl⟩
  · exact separable_punctuation h
  · exact hs part hpart l hl

/-- Lexemes in braces. -/
theorem AllSeparable.braced {ls : List Lexeme} (h : AllSeparable ls) :
    AllSeparable (Lexeme.mark .leftBrace :: ls ++ [Lexeme.mark .rightBrace]) :=
  .append (.mark rfl h) (.mark rfl .nil)

end Lexeme

open Lexeme (AllSeparable)

theorem Text.IsPath.separable {P : Text → Prop} {t : Text} (h : t.IsPath P) :
    AllSeparable (pieces t) := by
  obtain ⟨first, rest, -, identifiers, -, written⟩ := h.pieces_eq
  rw [written]
  refine .separated rfl fun part hpart => ?_
  obtain ⟨t, ht, rfl⟩ := List.mem_map.1 hpart
  exact .word (identifiers t ht) .nil

theorem Text.IsReference.separable {P : Text → Prop} {t : Text} (h : t.IsReference P) :
    AllSeparable (pieces t) := by
  rcases h with path | ⟨path, isPath, rfl⟩
  · exact path.separable
  · rw [Text.pieces_dot]
    exact .mark rfl isPath.separable

/-- A name in parentheses is its pieces in parentheses. -/
theorem Text.pieces_parenthesized (name : Text) :
    pieces ("(" ++ name ++ ")") = mark .leftParen :: pieces name ++ [mark .rightParen] := by
  have left : Segment.punctuation? (CodePoint.ofChar '(') = some .leftParen := by decide
  have right : Segment.punctuation? (CodePoint.ofChar ')') = some .rightParen := by decide
  change pieces (CodePoint.ofChar '(' :: (name ++ CodePoint.ofChar ')' :: [])) = _
  rw [pieces, left]
  dsimp only
  rw [Lexeme.pieces_append_mark _ _ right]
  rfl

theorem Text.IsOptionPart.separable {t : Text} (h : t.IsOptionPart) : AllSeparable (pieces t) := by
  rcases h with identifier | ⟨name, reference, rfl⟩
  · rw [Lexeme.pieces_identifier identifier]
    exact .word identifier .nil
  · rw [Text.pieces_parenthesized]
    exact .append (.mark rfl reference.separable) (.mark rfl .nil)

/-- The parts of an option name are apart from the dots between them. -/
theorem Text.IsOptionName.separable {t : Text} (h : t.IsOptionName) : AllSeparable (pieces t) := by
  obtain ⟨first, rest, parts, rfl⟩ := h
  rw [Lexeme.pieces_join]
  refine .separated rfl fun part hpart => ?_
  obtain ⟨t, ht, rfl⟩ := List.mem_map.1 hpart
  exact (parts t ht).separable

/-- Every value is written as separable lexemes. -/
theorem OptionValue.separable (v : OptionValue) : AllSeparable v.printed := by
  cases v with
  | text t => exact .cons (Lexeme.separable_string t) .nil
  | integer n => exact .cons (Lexeme.separable_integer n) .nil
  | flag value =>
    cases value with
    | true => exact .word rfl .nil
    | false => exact .word rfl .nil
  | real x =>
    rw [OptionValue.printed]
    split_ifs
    · exact .word rfl .nil
    · exact .mark rfl (.word rfl .nil)
    · exact .word rfl .nil
    · exact .cons (Lexeme.separable_real x) .nil

/-! ### Separable declarations -/

namespace OptionDecl

theorem WellFormed.separable_assignment {o : OptionDecl} (ok : o.WellFormed) :
    AllSeparable o.assignment :=
  .append ok.name.separable (.mark rfl o.value.separable)

theorem WellFormed.separable {o : OptionDecl} (ok : o.WellFormed) : AllSeparable o.printed :=
  .append (.word rfl ok.separable_assignment) (.mark rfl .nil)

theorem separable_bracketed {options : List OptionDecl} (ok : ∀ o ∈ options, o.WellFormed) :
    AllSeparable (bracketed options) := by
  unfold bracketed
  split_ifs
  · exact .nil
  · refine .append (.mark rfl (.separated rfl fun part hpart => ?_)) (.mark rfl .nil)
    obtain ⟨o, ho, rfl⟩ := List.mem_map.1 hpart
    exact (ok o ho).separable_assignment

end OptionDecl

theorem Label.separable (label : Option Label) : AllSeparable (Label.printed label) := by
  intro l hl
  obtain ⟨label, -, rfl⟩ := List.mem_map.1 hl
  cases label <;> exact Lexeme.separable_identifier rfl

theorem Field.separable_numbered {name : Text} (hname : name.isIdentifier = true) (number : Int)
    {options : List OptionDecl} (ok : ∀ o ∈ options, o.WellFormed) :
    AllSeparable (Field.numbered name number options) :=
  .word hname (.mark rfl
    (.cons (Lexeme.separable_integer number) (OptionDecl.separable_bracketed ok)))

theorem Field.WellFormed.separable {x : Field} (ok : x.WellFormed) : AllSeparable x.printed :=
  .append (.append (.append (Label.separable x.label) ok.type.separable)
    (Field.separable_numbered ok.name x.number ok.options)) (.mark rfl .nil)

theorem MapField.WellFormed.separable {x : MapField} (ok : x.WellFormed) : AllSeparable x.printed :=
  .append (.append (.word rfl (.mark rfl (.word ok.key (.mark rfl ok.value.separable))))
    (.mark rfl (Field.separable_numbered ok.name x.number ok.options))) (.mark rfl .nil)

theorem NumberRange.separable (r : NumberRange) : AllSeparable r.printed := by
  have first : (Lexeme.integer r.first).Separable := Lexeme.separable_integer r.first
  unfold NumberRange.printed
  split_ifs
  · exact .cons first (.word rfl (.word rfl .nil))
  · exact .cons first .nil
  · exact .cons first (.word rfl (.cons (Lexeme.separable_integer r.last) .nil))

theorem Reserved.separable (r : Reserved) : AllSeparable r.printed := by
  refine .append (.word rfl (.separated rfl fun part hpart => ?_)) (.mark rfl .nil)
  rcases List.mem_append.1 hpart with hpart | hpart
  · obtain ⟨range, -, rfl⟩ := List.mem_map.1 hpart
    exact range.separable
  · obtain ⟨name, -, rfl⟩ := List.mem_map.1 hpart
    exact .cons (Lexeme.separable_string name) .nil

theorem Extensions.WellFormed.separable {e : Extensions} (ok : e.WellFormed) :
    AllSeparable e.printed := by
  refine .append (.append (.word rfl (.separated rfl fun part hpart => ?_))
    (OptionDecl.separable_bracketed ok.options)) (.mark rfl .nil)
  obtain ⟨range, -, rfl⟩ := List.mem_map.1 hpart
  exact range.separable

theorem EnumMember.WellFormed.separable {m : EnumMember} (ok : m.WellFormed) :
    AllSeparable m.printed := by
  cases m with
  | value v =>
    exact .append (Field.separable_numbered ok.1 v.number ok.2) (.mark rfl .nil)
  | option o => exact OptionDecl.WellFormed.separable ok
  | reserved r => exact r.separable

theorem Enum.WellFormed.separable {e : Enum} (ok : e.WellFormed) : AllSeparable e.printed :=
  .word rfl (.word ok.name
    (.braced (.flatMap fun m hm => (ok.members m hm).separable)))

theorem Rpc.separable_parameter (streams : Bool) {type : Text} (h : type.IsType) :
    AllSeparable (Rpc.parameter streams type) := by
  have stream : AllSeparable (if streams then [word "stream"] else []) := by
    split
    · exact .word rfl .nil
    · exact .nil
  exact .append (.append (.mark rfl stream) h.separable) (.mark rfl .nil)

theorem Rpc.WellFormed.separable {r : Rpc} (ok : r.WellFormed) : AllSeparable r.printed := by
  have rest : AllSeparable (if r.options.isEmpty then [mark .semicolon]
      else mark .leftBrace :: r.options.flatMap (·.printed) ++ [mark .rightBrace]) := by
    split
    · exact .mark rfl .nil
    · exact .braced (.flatMap fun o ho => (ok.options o ho).separable)
  exact .append (.append (.word rfl (.word ok.name
    (Rpc.separable_parameter _ ok.request))) (.word rfl
      (Rpc.separable_parameter _ ok.response))) rest

theorem Service.WellFormed.separable {s : Service} (ok : s.WellFormed) :
    AllSeparable s.printed := by
  refine .word rfl (.word ok.name
    (.braced (.flatMap fun m hm => ?_)))
  have here := ok.members m hm
  cases m with
  | rpc r => exact Rpc.WellFormed.separable here
  | option o => exact OptionDecl.WellFormed.separable here

/-- By induction on the tree: a body in braces adds only its braces. -/
theorem Member.WellFormed.separable {kind : BodyKind} {m : Member} (ok : m.WellFormed kind) :
    AllSeparable m.printed := by
  induction ok with
  | field ok => exact ok.separable
  | map ok => exact ok.separable
  | @group _ head body ok inner ih =>
    rw [Member.printed, Member.allPrinted_eq, List.append_assoc]
    exact .append (.append (Label.separable head.label) (.word rfl
      (Field.separable_numbered ok.name head.number ok.options)))
      (.braced (.flatMap ih))
  | oneof name inner ih =>
    rw [Member.printed, Member.allPrinted_eq]
    exact .word rfl (.word name (.braced (.flatMap ih)))
  | message name inner ih =>
    rw [Member.printed, Member.allPrinted_eq]
    exact .word rfl (.word name (.braced (.flatMap ih)))
  | enum ok => exact ok.separable
  | extend target inner ih =>
    rw [Member.printed, Member.allPrinted_eq, List.append_assoc]
    exact .append (.word rfl target.separable)
      (.braced (.flatMap ih))
  | option place ok => exact ok.separable
  | @reserved r ok => exact r.separable
  | extensions ok => exact ok.separable

/-- **Every lexeme of a well-formed declaration is separable.** -/
theorem Item.WellFormed.separable {i : Item} (ok : i.WellFormed) : AllSeparable i.printed := by
  cases i with
  | syntaxLevel d =>
    exact .word rfl (.mark rfl (.cons (Lexeme.separable_string _) (.mark rfl .nil)))
  | edition d =>
    exact .word rfl (.mark rfl (.cons (Lexeme.separable_string _) (.mark rfl .nil)))
  | package d =>
    exact .append (.word rfl (Text.IsPath.separable ok)) (.mark rfl .nil)
  | importing d =>
    refine .append (.word rfl ?_)
      (.cons (Lexeme.separable_string _) (.mark rfl .nil))
    intro l hl
    obtain ⟨m, -, rfl⟩ := List.mem_map.1 hl
    cases m <;> exact Lexeme.separable_identifier rfl
  | service s => exact Service.WellFormed.separable ok
  | member m => exact ok.2.separable

end ProtoAtlas
