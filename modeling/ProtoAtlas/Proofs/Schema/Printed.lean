/-
# Printing schema trees

How a schema tree is written: every declaration as a list of lexemes, in the order
the grammar has them, and a file as those lexemes with single blanks between them
(`printed`).  Names are cut at their marks (`pieces`), so that `.a.b` is four
lexemes; texts are quoted, and numbers are written as the literals that spell them
exactly.

Printing leaves out places and comments.  `reset` does the same to a tree: it drops
the places of names and changes what declarations say about themselves, and two
trees that agree after it differ in nothing that is written.

A tree is *well formed* if it could come from a text at all: its names are names,
its lists are not empty where one is asked for, and its bodies hold what the grammar
lets them hold.
-/

import ProtoAtlas.Grammar.File
import ProtoAtlas.Proofs.Source.Spaced

namespace ProtoAtlas

/-! ### Trees without their places -/

/-- What a declaration that carries no comment says about itself, without its place. -/
def NodeInfo.blank : NodeInfo := ⟨Span.empty, none, none⟩

/-- What a declaration says about itself, without its place and its comments. -/
def NodeInfo.bare (_ : NodeInfo) : NodeInfo := NodeInfo.blank

/-- What a declaration says about itself, without its place. -/
def NodeInfo.unplaced (i : NodeInfo) : NodeInfo := { i with span := Span.empty }

/-- A name without its place. -/
def Name.unplaced (n : Name) : Name := { n with span := Span.empty }

section Reset

variable (f : NodeInfo → NodeInfo)

/-- An option without the place of its name, and with other information. -/
def OptionDecl.reset (o : OptionDecl) : OptionDecl :=
  ⟨o.name.unplaced, o.value, f o.info⟩

/-- A reserved statement with other information. -/
def Reserved.reset (r : Reserved) : Reserved :=
  ⟨r.ranges, r.names, f r.info⟩

/-- An extensions statement with other information. -/
def Extensions.reset (e : Extensions) : Extensions :=
  ⟨e.ranges, e.options.map (·.reset f), f e.info⟩

/-- A field without the places of its names, and with other information. -/
def Field.reset (x : Field) : Field :=
  ⟨x.name.unplaced, x.type.unplaced, x.number, x.label, x.options.map (·.reset f), f x.info⟩

/-- A map field without the places of its names, and with other information. -/
def MapField.reset (x : MapField) : MapField :=
  ⟨x.name.unplaced, x.key.unplaced, x.value.unplaced, x.number, x.options.map (·.reset f),
    f x.info⟩

/-- An enum value without the place of its name, and with other information. -/
def EnumValue.reset (v : EnumValue) : EnumValue :=
  ⟨v.name.unplaced, v.number, v.options.map (·.reset f), f v.info⟩

/-- A member of an enum without places, and with other information. -/
def EnumMember.reset : EnumMember → EnumMember
  | .value v => .value (v.reset f)
  | .option o => .option (o.reset f)
  | .reserved r => .reserved (r.reset f)

/-- An enum without places, and with other information. -/
def Enum.reset (e : Enum) : Enum :=
  ⟨e.name.unplaced, e.members.map (·.reset f), f e.info⟩

/-- A procedure without places, and with other information. -/
def Rpc.reset (r : Rpc) : Rpc :=
  ⟨r.name.unplaced, r.request.unplaced, r.response.unplaced, r.requestStreams, r.responseStreams,
    r.options.map (·.reset f), f r.info⟩

/-- A member of a service without places, and with other information. -/
def ServiceMember.reset : ServiceMember → ServiceMember
  | .rpc r => .rpc (r.reset f)
  | .option o => .option (o.reset f)

/-- A service without places, and with other information. -/
def Service.reset (s : Service) : Service :=
  ⟨s.name.unplaced, s.members.map (·.reset f), f s.info⟩

/-- The head of a message or a oneof without places, and with other information. -/
def BlockHead.reset (h : BlockHead) : BlockHead :=
  ⟨h.name.unplaced, f h.info⟩

/-- The head of a group without places, and with other information. -/
def GroupHead.reset (h : GroupHead) : GroupHead :=
  ⟨h.name.unplaced, h.number, h.label, h.options.map (·.reset f), f h.info⟩

/-- The head of an extend block without places, and with other information. -/
def ExtendHead.reset (h : ExtendHead) : ExtendHead :=
  ⟨h.target.unplaced, f h.info⟩

mutual

/-- A member without places, and with other information. -/
def Member.reset : Member → Member
  | .field x => .field (x.reset f)
  | .map x => .map (x.reset f)
  | .group head body => .group (head.reset f) (Member.resetAll body)
  | .oneof head body => .oneof (head.reset f) (Member.resetAll body)
  | .message head body => .message (head.reset f) (Member.resetAll body)
  | .enum e => .enum (e.reset f)
  | .extend head body => .extend (head.reset f) (Member.resetAll body)
  | .option o => .option (o.reset f)
  | .reserved r => .reserved (r.reset f)
  | .extensions e => .extensions (e.reset f)

/-- The members of a body without places, and with other information. -/
def Member.resetAll : List Member → List Member
  | [] => []
  | m :: ms => m.reset :: Member.resetAll ms

end

/-- A declaration of a file without places, and with other information. -/
def Item.reset : Item → Item
  | .syntaxLevel d => .syntaxLevel ⟨d.version, f d.info⟩
  | .edition d => .edition ⟨d.edition, f d.info⟩
  | .package d => .package ⟨d.name.unplaced, f d.info⟩
  | .importing d => .importing ⟨d.path.unplaced, d.modifier, f d.info⟩
  | .service s => .service (s.reset f)
  | .member m => .member (m.reset f)

end Reset

/-- A declaration of a file without its places; its comments stay. -/
def Item.unplaced (i : Item) : Item := i.reset NodeInfo.unplaced

/-- A declaration of a file without its places and its comments. -/
def Item.bare (i : Item) : Item := i.reset NodeInfo.bare

@[simp] theorem Member.resetAll_eq (f : NodeInfo → NodeInfo) (body : List Member) :
    Member.resetAll f body = body.map (Member.reset f) := by
  induction body with
  | nil => rfl
  | cons m ms ih => rw [Member.resetAll, ih, List.map_cons]

/-! ### Lexemes and their lists -/

namespace Lexeme

/-- A word. -/
def word (t : Text) : Lexeme := ⟨.identifier, t⟩

/-- The punctuation of a kind. -/
def mark (kind : TokenKind) : Lexeme :=
  ⟨kind, (Segment.marks.find? (·.2 = kind)).toList.map fun m => CodePoint.ofChar m.1⟩

/-- A text in quotes. -/
def string (t : Text) : Lexeme := ⟨.string, Literal.quote t⟩

/-- An integer. -/
def integer (n : Int) : Lexeme := ⟨.number, Literal.ofInt n⟩

/-- A finite number. -/
def real (x : Binary64) : Lexeme := ⟨.number, Literal.ofReal x⟩

/-- The words and marks of a name. -/
def pieces : Text → List Lexeme
  | [] => []
  | c :: cs =>
    match Segment.punctuation? c with
    | some kind => ⟨kind, [c]⟩ :: pieces cs
    | none =>
      match pieces cs with
      | ⟨.identifier, t⟩ :: rest => word (c :: t) :: rest
      | rest => word [c] :: rest

/-- Lists of lexemes with a mark between neighbours. -/
def separated (kind : TokenKind) : List (List Lexeme) → List Lexeme
  | [] => []
  | [part] => part
  | part :: parts => part ++ mark kind :: separated kind parts

end Lexeme

open Lexeme (word mark pieces separated)

/-! ### Printing declarations -/

/-- The lexemes of an option value. -/
def OptionValue.printed : OptionValue → List Lexeme
  | .text t => [.string t]
  | .integer n => [.integer n]
  | .flag value => [word (if value then "true" else "false")]
  | .real x =>
    if x.isNaN then [word "nan"]
    else if x.isInfinite then
      if x.isNegative then [mark .minus, word "inf"] else [word "inf"]
    else [.real x]

/-- The lexemes of an option, as it stands in brackets. -/
def OptionDecl.assignment (o : OptionDecl) : List Lexeme :=
  pieces o.name.text ++ mark .equals :: o.value.printed

/-- The lexemes of an option statement. -/
def OptionDecl.printed (o : OptionDecl) : List Lexeme :=
  word "option" :: o.assignment ++ [mark .semicolon]

/-- The lexemes of options in brackets; nothing if there are none. -/
def OptionDecl.bracketed (options : List OptionDecl) : List Lexeme :=
  if options.isEmpty then []
  else mark .leftBracket :: separated .comma (options.map (·.assignment)) ++ [mark .rightBracket]

/-- The lexemes of a label. -/
def Label.printed (label : Option Label) : List Lexeme :=
  label.toList.map fun l => Lexeme.word l.word

@[simp] theorem Label.printed_none : Label.printed none = [] := rfl

@[simp] theorem Label.printed_some (l : Label) :
    Label.printed (some l) = [Lexeme.word l.word] := rfl

/-- The lexemes of a name with its number and its options: the end of a field. -/
def Field.numbered (name : Text) (number : Int) (options : List OptionDecl) : List Lexeme :=
  word name :: mark .equals :: .integer number :: OptionDecl.bracketed options

/-- The lexemes of a field. -/
def Field.printed (x : Field) : List Lexeme :=
  Label.printed x.label ++ pieces x.type.text ++ Field.numbered x.name.text x.number x.options ++
    [mark .semicolon]

/-- The lexemes of a map field. -/
def MapField.printed (x : MapField) : List Lexeme :=
  word "map" :: mark .leftAngle :: word x.key.text :: mark .comma :: pieces x.value.text ++
    mark .rightAngle :: Field.numbered x.name.text x.number x.options ++ [mark .semicolon]

/-- The lexemes of a range. -/
def NumberRange.printed (r : NumberRange) : List Lexeme :=
  if r.toMax then [.integer r.first, word "to", word "max"]
  else if r.first = r.last then [.integer r.first]
  else [.integer r.first, word "to", .integer r.last]

/-- The lexemes of a reserved statement, the ranges first. -/
def Reserved.printed (r : Reserved) : List Lexeme :=
  word "reserved" ::
    separated .comma (r.ranges.map (·.printed) ++ r.names.map fun n => [.string n]) ++
      [mark .semicolon]

/-- The lexemes of an extensions statement. -/
def Extensions.printed (e : Extensions) : List Lexeme :=
  word "extensions" :: separated .comma (e.ranges.map (·.printed)) ++
    OptionDecl.bracketed e.options ++ [mark .semicolon]

/-- The lexemes of an enum value. -/
def EnumValue.printed (v : EnumValue) : List Lexeme :=
  Field.numbered v.name.text v.number v.options ++ [mark .semicolon]

/-- The lexemes of a member of an enum. -/
def EnumMember.printed : EnumMember → List Lexeme
  | .value v => v.printed
  | .option o => o.printed
  | .reserved r => r.printed

/-- The lexemes of an enum. -/
def Enum.printed (e : Enum) : List Lexeme :=
  word "enum" :: word e.name.text :: mark .leftBrace :: e.members.flatMap (·.printed) ++
    [mark .rightBrace]

/-- The lexemes of a type in parentheses, behind `stream` if it is one. -/
def Rpc.parameter (streams : Bool) (type : Text) : List Lexeme :=
  mark .leftParen :: (if streams then [word "stream"] else []) ++ pieces type ++ [mark .rightParen]

/-- The lexemes of a procedure; only one with options has a body. -/
def Rpc.printed (r : Rpc) : List Lexeme :=
  word "rpc" :: word r.name.text :: Rpc.parameter r.requestStreams r.request.text ++
    word "returns" :: Rpc.parameter r.responseStreams r.response.text ++
    if r.options.isEmpty then [mark .semicolon]
    else mark .leftBrace :: r.options.flatMap (·.printed) ++ [mark .rightBrace]

/-- The lexemes of a member of a service. -/
def ServiceMember.printed : ServiceMember → List Lexeme
  | .rpc r => r.printed
  | .option o => o.printed

/-- The lexemes of a service. -/
def Service.printed (s : Service) : List Lexeme :=
  word "service" :: word s.name.text :: mark .leftBrace :: s.members.flatMap (·.printed) ++
    [mark .rightBrace]

/-- The lexemes of the head of a group. -/
def GroupHead.printed (h : GroupHead) : List Lexeme :=
  Label.printed h.label ++ word "group" :: Field.numbered h.name.text h.number h.options

mutual

/-- The lexemes of a member. -/
def Member.printed : Member → List Lexeme
  | .field x => x.printed
  | .map x => x.printed
  | .group head body =>
    head.printed ++ mark .leftBrace :: Member.allPrinted body ++ [mark .rightBrace]
  | .oneof head body =>
    word "oneof" :: word head.name.text :: mark .leftBrace :: Member.allPrinted body ++
      [mark .rightBrace]
  | .message head body =>
    word "message" :: word head.name.text :: mark .leftBrace :: Member.allPrinted body ++
      [mark .rightBrace]
  | .enum e => e.printed
  | .extend head body =>
    word "extend" :: pieces head.target.text ++ mark .leftBrace :: Member.allPrinted body ++
      [mark .rightBrace]
  | .option o => o.printed
  | .reserved r => r.printed
  | .extensions e => e.printed

/-- The lexemes of the members of a body. -/
def Member.allPrinted : List Member → List Lexeme
  | [] => []
  | m :: ms => m.printed ++ Member.allPrinted ms

end

@[simp] theorem Member.allPrinted_eq (body : List Member) :
    Member.allPrinted body = body.flatMap Member.printed := by
  induction body with
  | nil => rfl
  | cons m ms ih => rw [Member.allPrinted, ih, List.flatMap_cons]

/-- The lexemes of a declaration of a file. -/
def Item.printed : Item → List Lexeme
  | .syntaxLevel d => [word "syntax", mark .equals, .string d.version, mark .semicolon]
  | .edition d => [word "edition", mark .equals, .string d.edition, mark .semicolon]
  | .package d => word "package" :: pieces d.name.text ++ [mark .semicolon]
  | .importing d =>
    word "import" :: (d.modifier.toList.map fun m => word m.word) ++
      [.string d.path.text, mark .semicolon]
  | .service s => s.printed
  | .member m => m.printed

/-- **The text of a file**: the lexemes of its declarations, with single blanks
between them. -/
def Item.textOf (items : List Item) : Text :=
  Lexeme.spaced (items.flatMap (·.printed))

/-! ### Well-formed trees -/

namespace Text

/-- Identifiers joined by dots, the first of which satisfies `P`. -/
def IsPath (P : Text → Prop) (t : Text) : Prop :=
  ∃ first rest, P first ∧ (∀ part ∈ first :: rest, Text.isIdentifier part = true) ∧
    t = Text.join "." (first :: rest)

/-- Identifiers joined by dots, possibly behind a dot.  Without it the first
satisfies `P`. -/
def IsReference (P : Text → Prop) (t : Text) : Prop :=
  t.IsPath P ∨ ∃ path, IsPath (fun _ => True) path ∧ t = CodePoint.ofChar '.' :: path

/-- The words that start other declarations than fields. -/
def openingWords : List Text :=
  ["option", "reserved", "extensions", "message", "enum", "oneof", "extend", "map", "group",
    "optional", "required", "repeated", "stream"].map Text.ofString

/-- A type: without a dot in front it does not start with one of the opening words. -/
def IsType (t : Text) : Prop :=
  t.IsReference (· ∉ openingWords)

/-- A part of an option name: an identifier, or a name in parentheses. -/
def IsOptionPart (t : Text) : Prop :=
  t.isIdentifier = true ∨
    ∃ name : Text, name.IsReference (fun _ => True) ∧ t = "(" ++ name ++ ")"

/-- The name of an option: parts joined by dots. -/
def IsOptionName (t : Text) : Prop :=
  ∃ first rest, (∀ part ∈ first :: rest, Text.IsOptionPart part) ∧
    t = Text.join "." (first :: rest)

end Text

/-- There is one value that is no number. -/
def OptionValue.WellFormed : OptionValue → Prop
  | .real x => x.isNaN = true → x = Binary64.nan
  | _ => True

/-- An option with a name and a value. -/
structure OptionDecl.WellFormed (o : OptionDecl) : Prop where
  name : o.name.text.IsOptionName
  value : o.value.WellFormed

/-- A field with a type and a name. -/
structure Field.WellFormed (x : Field) : Prop where
  type : x.type.text.IsType
  name : x.name.text.isIdentifier = true
  options : ∀ o ∈ x.options, o.WellFormed

/-- A map field with types and a name. -/
structure MapField.WellFormed (x : MapField) : Prop where
  key : x.key.text.isIdentifier = true
  value : x.value.text.IsType
  name : x.name.text.isIdentifier = true
  options : ∀ o ∈ x.options, o.WellFormed

/-- A range that ends in `max` ends in the greatest number. -/
def NumberRange.WellFormed (max : Int) (r : NumberRange) : Prop :=
  r.toMax = true → r.last = max

/-- A reserved statement that reserves something. -/
structure Reserved.WellFormed (max : Int) (r : Reserved) : Prop where
  some : r.ranges ≠ [] ∨ r.names ≠ []
  ranges : ∀ range ∈ r.ranges, range.WellFormed max

/-- An extensions statement with at least one range. -/
structure Extensions.WellFormed (e : Extensions) : Prop where
  some : e.ranges ≠ []
  ranges : ∀ range ∈ e.ranges, range.WellFormed maxFieldNumber
  options : ∀ o ∈ e.options, o.WellFormed

/-- A member of an enum whose parts are well formed. -/
def EnumMember.WellFormed : EnumMember → Prop
  | .value v => v.name.text.isIdentifier = true ∧ ∀ o ∈ v.options, o.WellFormed
  | .option o => o.WellFormed
  | .reserved r => r.WellFormed maxEnumNumber

/-- An enum with a name and well-formed members. -/
structure Enum.WellFormed (e : Enum) : Prop where
  name : e.name.text.isIdentifier = true
  members : ∀ m ∈ e.members, m.WellFormed

/-- A procedure with a name and types. -/
structure Rpc.WellFormed (r : Rpc) : Prop where
  name : r.name.text.isIdentifier = true
  request : r.request.text.IsType
  response : r.response.text.IsType
  options : ∀ o ∈ r.options, o.WellFormed

/-- A member of a service whose parts are well formed. -/
def ServiceMember.WellFormed : ServiceMember → Prop
  | .rpc r => r.WellFormed
  | .option o => o.WellFormed

/-- A service with a name and well-formed members. -/
structure Service.WellFormed (s : Service) : Prop where
  name : s.name.text.isIdentifier = true
  members : ∀ m ∈ s.members, m.WellFormed

/-- A group with a name. -/
structure GroupHead.WellFormed (h : GroupHead) : Prop where
  name : h.name.text.isIdentifier = true
  options : ∀ o ∈ h.options, o.WellFormed

/-- A member that may stand in a body, with names that are names, all the way down. -/
inductive Member.WellFormed : BodyKind → Member → Prop
  | field {kind : BodyKind} {x : Field} (ok : x.WellFormed) : WellFormed kind (.field x)
  | map {x : MapField} (ok : x.WellFormed) : WellFormed .message (.map x)
  | group {kind : BodyKind} {head : GroupHead} {body : List Member} (ok : head.WellFormed)
      (inner : ∀ m ∈ body, WellFormed .message m) : WellFormed kind (.group head body)
  | oneof {head : BlockHead} {body : List Member} (name : head.name.text.isIdentifier = true)
      (inner : ∀ m ∈ body, WellFormed .oneof m) : WellFormed .message (.oneof head body)
  | message {head : BlockHead} {body : List Member} (name : head.name.text.isIdentifier = true)
      (inner : ∀ m ∈ body, WellFormed .message m) : WellFormed .message (.message head body)
  | enum {e : Enum} (ok : e.WellFormed) : WellFormed .message (.enum e)
  | extend {head : ExtendHead} {body : List Member} (target : head.target.text.IsType)
      (inner : ∀ m ∈ body, WellFormed .extend m) : WellFormed .message (.extend head body)
  | option {kind : BodyKind} {o : OptionDecl} (place : kind ≠ .extend) (ok : o.WellFormed) :
      WellFormed kind (.option o)
  | reserved {r : Reserved} (ok : r.WellFormed maxFieldNumber) : WellFormed .message (.reserved r)
  | extensions {e : Extensions} (ok : e.WellFormed) : WellFormed .message (.extensions e)

/-- Whether a member may stand at the top of a file. -/
def Member.standsInFile : Member → Bool
  | .message _ _ | .enum _ | .extend _ _ | .option _ => true
  | _ => false

/-- A declaration of a file whose parts are well formed. -/
def Item.WellFormed : Item → Prop
  | .syntaxLevel _ | .edition _ | .importing _ => True
  | .package d => d.name.text.IsPath fun _ => True
  | .service s => s.WellFormed
  | .member m => m.standsInFile = true ∧ m.WellFormed .message

/-- The declaration an item is, if it is one that may stand once. -/
def Item.single? : Item → Option SingleDeclaration
  | .syntaxLevel _ => some .syntaxLevel
  | .edition _ => some .edition
  | .package _ => some .package
  | _ => none

/-- A list of declarations that a file may have. -/
structure Item.WellFormedFile (items : List Item) : Prop where
  each : ∀ i ∈ items, i.WellFormed
  single : (items.filterMap Item.single?).Nodup

/-! ### Depth and choices -/

mutual

/-- How many bodies a member opens inside each other. -/
def Member.depth : Member → Nat
  | .group _ body | .oneof _ body | .message _ body | .extend _ body => 1 + Member.depthOf body
  | .enum _ => 1
  | _ => 0

/-- How many bodies the members of a body open inside each other. -/
def Member.depthOf : List Member → Nat
  | [] => 0
  | m :: ms => max m.depth (Member.depthOf ms)

end

/-- Whether a member is a group with a label. -/
def Member.isLabelledGroup : Member → Bool
  | .group head _ => head.label.isSome
  | _ => false

mutual

/-- Whether no group that stands right inside a oneof has a label. -/
def Member.choicesUnlabelled : Member → Bool
  | .group _ body | .message _ body | .extend _ body => Member.allChoicesUnlabelled body
  | .oneof _ body => body.all (!·.isLabelledGroup) && Member.allChoicesUnlabelled body
  | _ => true

/-- The same for the members of a body. -/
def Member.allChoicesUnlabelled : List Member → Bool
  | [] => true
  | m :: ms => m.choicesUnlabelled && Member.allChoicesUnlabelled ms

end

theorem Member.depth_le_depthOf {body : List Member} {m : Member} (h : m ∈ body) :
    m.depth ≤ Member.depthOf body := by
  induction body with
  | nil => cases h
  | cons x xs ih =>
    rw [Member.depthOf]
    rcases List.mem_cons.1 h with rfl | h
    · exact Nat.le_max_left _ _
    · exact Nat.le_trans (ih h) (Nat.le_max_right _ _)

theorem Member.allChoicesUnlabelled_eq (body : List Member) :
    Member.allChoicesUnlabelled body = body.all (·.choicesUnlabelled) := by
  induction body with
  | nil => rfl
  | cons m ms ih => rw [Member.allChoicesUnlabelled, ih, List.all_cons]

end ProtoAtlas
