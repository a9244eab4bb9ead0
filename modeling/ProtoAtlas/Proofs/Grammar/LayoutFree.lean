/-
# Reading does not depend on layout

Every rule of the grammar is blind: from stripped tokens it reads the same tree, without
places and comments, and the same faults, without their places.  One lemma for each
production follows its text; the bodies inside messages are read by induction on how
many more may be open, and the statements of a file by induction on how many are left.

Two texts with the same lexemes give the same reader once it is stripped.  So white
space, comments and characters that belong to no token never change what is read,
whether or not the text is a schema.
-/

import ProtoAtlas.Proofs.Grammar.Blind
import ProtoAtlas.Proofs.Grammar.TracedRules
import ProtoAtlas.Proofs.Source.Respaced

namespace ProtoAtlas
namespace Rule

/-! ### Names, numbers and options -/

theorem blind_qualifiedName (what : Text) :
    Blind Name.unplaced (qualifiedName what) (qualifiedName what) := by
  refine blind_current.seq fun start => (blind_accept _).seq fun absolute => ?_
  refine (blind_separatedBy _ (blind_expect _ _)).seq fun parts => blind_previous.seq fun last => ?_
  refine .pure ?_
  rw [List.map_map]
  rfl

theorem blind_simpleName (what : Text) :
    Blind Name.unplaced (simpleName what) (simpleName what) :=
  (blind_expect _ _).seq fun _ => .pure rfl

theorem blind_integer (what : Text) : Blind id (integer what) (integer what) :=
  (blind_accept _).seq fun _ => (blind_expect _ _).seq fun token =>
    (blind_answer ⟨.invalidInteger token.text, token.span⟩ _).seq fun _ => .pure rfl

theorem blind_optionNamePart : Blind id optionNamePart optionNamePart :=
  (blind_accept _).seq fun _ => .ite
    ((blind_qualifiedName _).seq fun _ => (blind_expect _ _).seq fun _ => .pure rfl)
    ((blind_expect _ _).seq fun _ => .pure rfl)

theorem blind_optionName : Blind Name.unplaced optionName optionName := by
  refine blind_current.seq fun start => ?_
  refine (blind_separatedBy _ blind_optionNamePart).seq fun parts => blind_previous.seq fun _ => ?_
  refine .pure ?_
  rw [List.map_id]
  rfl

theorem blind_aggregate : Blind id aggregate aggregate := by
  refine (blind_expect _ _).seq fun brace => blind_get.seq fun r => ?_
  simp only [Reader.stripped, Token.blockLength?_stripped, List.length_map]
  cases Token.blockLength? 0 r.rest with
  | none => exact (Blind.change (Reader.advanceBy_stripped _)).seq fun _ => .fault rfl
  | some n =>
    refine (Blind.change (Reader.advanceBy_stripped n)).seq fun _ => .pure ?_
    rw [← List.map_take, replay_stripped]
    rfl

theorem blind_numberValue (literal : Text) :
    Blind id (numberValue literal) (numberValue literal) := by
  refine blind_previous.seq fun last => .ite ?_ ?_
  · exact (blind_answer ⟨.invalidNumber literal, last.span⟩ _).seq fun _ => .pure rfl
  · exact (blind_answer ⟨.invalidNumber literal, last.span⟩ _).seq fun _ => .pure rfl

theorem blind_signedValue : Blind id signedValue signedValue := by
  refine blind_advance.seq fun sign => (blind_check _).seq fun number => .ite ?_ ?_
  · exact blind_advance.seq fun _ => blind_numberValue _
  · refine blind_current.seq fun word => ?_
    unfold Token.stripped
    dsimp only
    cases if word.kind = .identifier then numberWord? (sign.kind = .minus) word.text.lower
      else none with
    | some x => exact blind_advance.seq fun _ => .pure rfl
    | none => exact blind_reject _ _

theorem blind_namedValue (word : Token) :
    Blind id (namedValue word) (namedValue word.stripped) := by
  refine .ite (blind_advance.seq fun _ => .pure rfl)
    (.ite (blind_advance.seq fun _ => .pure rfl) ?_)
  unfold Token.stripped
  cases if word.kind = .identifier then numberWord? false word.text else none with
  | some x => exact blind_advance.seq fun _ => .pure rfl
  | none => exact (blind_qualifiedName _).seq fun _ => .pure rfl

theorem blind_optionValue : Blind id optionValue optionValue := by
  refine blind_current.seq fun token => ?_
  simp only [Token.kind_stripped]
  split
  · refine (blind_many (v := id) ?_).seq fun parts => .pure ?_
    · exact (blind_check _).seq fun _ => .ite (blind_advance.seq fun _ => .pure rfl) (.pure rfl)
    · rw [List.map_id]
      rfl
  · exact blind_aggregate.seq fun _ => .pure rfl
  · exact blind_signedValue
  · exact blind_signedValue
  · exact blind_advance.seq fun _ => blind_numberValue _
  · exact blind_namedValue token
  · exact blind_namedValue token
  · exact blind_reject _ _

theorem blind_optionStatement :
    Blind (OptionDecl.reset NodeInfo.bare) optionStatement optionStatement :=
  (blind_keyword _).seq fun first => (blind_claimComment first).seq fun comment =>
    blind_optionName.seq fun _ => (blind_expect _ _).seq fun _ =>
    blind_optionValue.seq fun _ => (blind_expect _ _).seq fun _ =>
    (blind_close first comment none).seq fun _ => .pure rfl

theorem blind_bracketOption :
    Blind (OptionDecl.reset NodeInfo.bare) bracketOption bracketOption :=
  blind_current.seq fun _ => blind_optionName.seq fun _ => (blind_expect _ _).seq fun _ =>
    blind_optionValue.seq fun _ => blind_previous.seq fun _ => .pure rfl

theorem blind_optionalBrackets :
    Blind (List.map (OptionDecl.reset NodeInfo.bare)) optionalBrackets optionalBrackets := by
  refine (blind_check _).seq fun _ => .ite ?_ (.pure rfl)
  exact (blind_expect _ _).seq fun _ => (blind_separatedBy _ blind_bracketOption).seq fun _ =>
    (blind_expect _ _).seq fun _ => .pure rfl

/-! ### Fields and ranges -/

theorem blind_passLabel (label : Option Label) : Blind id (passLabel label) (passLabel label) :=
  .ite (blind_advance.seq fun _ => .pure rfl) (.pure rfl)

theorem blind_field : Blind (Field.reset NodeInfo.bare) field field :=
  blind_current.seq fun first => (blind_peek 2).seq fun _ => (blind_passLabel _).seq fun _ =>
    (blind_qualifiedName _).seq fun _ => (blind_claimComment first).seq fun comment =>
    (blind_simpleName _).seq fun _ => (blind_expect _ _).seq fun _ =>
    (blind_integer _).seq fun _ => blind_optionalBrackets.seq fun _ =>
    (blind_expect _ _).seq fun _ => (blind_close first comment none).seq fun _ => .pure rfl

theorem blind_mapField : Blind (MapField.reset NodeInfo.bare) mapField mapField :=
  (blind_keyword _).seq fun first => (blind_claimComment first).seq fun comment =>
    (blind_expect _ _).seq fun _ => (blind_simpleName _).seq fun _ =>
    (blind_expect _ _).seq fun _ => (blind_qualifiedName _).seq fun _ =>
    (blind_expect _ _).seq fun _ => (blind_simpleName _).seq fun _ =>
    (blind_expect _ _).seq fun _ => (blind_integer _).seq fun _ =>
    blind_optionalBrackets.seq fun _ => (blind_expect _ _).seq fun _ =>
    (blind_close first comment none).seq fun _ => .pure rfl

theorem blind_numberRange (max : Int) : Blind id (numberRange max) (numberRange max) :=
  (blind_integer _).seq fun _ => (blind_checkWord _).seq fun _ => .ite
    (blind_advance.seq fun _ => (blind_checkWord _).seq fun _ => .ite
      (blind_advance.seq fun _ => .pure rfl)
      ((blind_integer _).seq fun _ => .pure rfl))
    (.pure rfl)

theorem blind_reservation (max : Int) : Blind id (reservation max) (reservation max) := by
  refine blind_current.seq fun token => ?_
  simp only [Token.kind_stripped]
  split
  · exact blind_advance.seq fun _ => .pure rfl
  · exact blind_advance.seq fun _ => .pure rfl
  · exact (blind_numberRange max).seq fun _ => .pure rfl
  · exact (blind_numberRange max).seq fun _ => .pure rfl
  · exact blind_reject _ _

theorem blind_reserved (max : Int) :
    Blind (Reserved.reset NodeInfo.bare) (reserved max) (reserved max) := by
  refine (blind_keyword _).seq fun first => (blind_claimComment first).seq fun comment => ?_
  refine (blind_separatedBy _ (blind_reservation max)).seq fun parts => ?_
  rw [List.map_id]
  exact (blind_expect _ _).seq fun _ => (blind_close first comment none).seq fun _ => .pure rfl

theorem blind_extensions : Blind (Extensions.reset NodeInfo.bare) extensions extensions := by
  refine (blind_keyword _).seq fun first => (blind_claimComment first).seq fun comment => ?_
  refine (blind_separatedBy _ (blind_numberRange _)).seq fun ranges => ?_
  rw [List.map_id]
  exact blind_optionalBrackets.seq fun _ => (blind_expect _ _).seq fun _ =>
    (blind_close first comment none).seq fun _ => .pure rfl

/-! ### Enums and services -/

theorem blind_enumValue : Blind (EnumValue.reset NodeInfo.bare) enumValue enumValue :=
  (blind_expect _ _).seq fun first => (blind_claimComment first).seq fun comment =>
    (blind_expect _ _).seq fun _ => (blind_integer _).seq fun _ =>
    blind_optionalBrackets.seq fun _ => (blind_expect _ _).seq fun _ =>
    (blind_close first comment none).seq fun _ => .pure rfl

theorem blind_enumMember :
    Blind (Option.map (EnumMember.reset NodeInfo.bare)) enumMember enumMember :=
  (blind_accept _).seq fun _ => .ite (.pure rfl) <| blind_current.seq fun _ =>
    (blind_peek 1).seq fun _ => .ite (blind_optionStatement.seq fun _ => .pure rfl) <|
    (blind_peek 1).seq fun _ => .ite ((blind_reserved _).seq fun _ => .pure rfl)
    (blind_enumValue.seq fun _ => .pure rfl)

theorem blind_enum :
    Blind (Enum.reset NodeInfo.bare) enum enum :=
  (blind_keyword _).seq fun first => (blind_claimComment first).seq fun comment =>
    (blind_simpleName _).seq fun _ => (blind_expect _ _).seq fun brace =>
    (blind_body _ blind_enumMember).seq fun _ =>
    (blind_close first comment (some brace)).seq fun _ => .pure rfl

theorem blind_stream : Blind id stream stream :=
  blind_current.seq fun _ => (blind_peek 1).seq fun _ =>
    .ite (blind_advance.seq fun _ => .pure rfl) (.pure rfl)

theorem blind_rpcMember :
    Blind (Option.map (OptionDecl.reset NodeInfo.bare)) rpcMember rpcMember :=
  (blind_accept _).seq fun _ => .ite (.pure rfl) <| blind_current.seq fun _ =>
    .ite (blind_optionStatement.seq fun _ => .pure rfl) (blind_reject _ _)

theorem blind_rpc :
    Blind (Rpc.reset NodeInfo.bare) rpc rpc := by
  refine (blind_keyword _).seq fun first => (blind_claimComment first).seq fun comment => ?_
  refine (blind_simpleName _).seq fun name => (blind_expect _ _).seq fun _ => ?_
  refine blind_stream.seq fun _ => (blind_qualifiedName _).seq fun _ => ?_
  refine (blind_expect _ _).seq fun _ => (blind_expectWord _ _).seq fun _ => ?_
  refine (blind_expect _ _).seq fun _ => blind_stream.seq fun _ => ?_
  refine (blind_qualifiedName _).seq fun _ => (blind_expect _ _).seq fun _ => ?_
  refine (blind_check _).seq fun _ => .ite ?_ ?_
  · exact blind_advance.seq fun brace =>
      (blind_body _ blind_rpcMember).seq fun _ =>
      (blind_close first comment (some brace)).seq fun _ => .pure rfl
  · exact (blind_expect _ _).seq fun _ => (blind_close first comment none).seq fun _ => .pure rfl

theorem blind_serviceMember :
    Blind (Option.map (ServiceMember.reset NodeInfo.bare)) serviceMember
      serviceMember :=
  (blind_accept _).seq fun _ => .ite (.pure rfl) <| blind_current.seq fun _ =>
    .ite (blind_optionStatement.seq fun _ => .pure rfl) <|
    .ite (blind_rpc.seq fun _ => .pure rfl) (blind_reject _ _)

theorem blind_service :
    Blind (Service.reset NodeInfo.bare) service service :=
  (blind_keyword _).seq fun first => (blind_claimComment first).seq fun comment =>
    (blind_simpleName _).seq fun _ => (blind_expect _ _).seq fun brace =>
    (blind_body _ blind_serviceMember).seq fun _ =>
    (blind_close first comment (some brace)).seq fun _ => .pure rfl

/-! ### Messages and the bodies inside them -/

/-- A rule for bodies that is blind for every kind of body. -/
def BlindBodies (inner : BodyRule) : Prop :=
  ∀ kind block, Blind (List.map (Member.reset NodeInfo.bare)) (inner kind block) (inner kind block)

section Members

variable {inner : BodyRule} (bodies : BlindBodies inner)

include bodies

theorem blind_nestedMessage :
    Blind (Option.map (Member.reset NodeInfo.bare)) (nestedMessage inner)
      (nestedMessage inner) := by
  have whole : Blind
      (fun m => ⟨m.head.reset NodeInfo.bare, m.body.map (Member.reset NodeInfo.bare)⟩)
      (message inner) (message inner) :=
    (blind_keyword _).seq fun first => (blind_claimComment first).seq fun comment =>
      (blind_simpleName _).seq fun _ => (blind_expect _ _).seq fun brace =>
      (bodies _ _).seq fun _ => (blind_close first comment (some brace)).seq fun _ => .pure rfl
  refine whole.seq fun m => .pure ?_
  rw [Option.map_some, Member.reset, Member.resetAll_eq]

theorem blind_oneofBlock :
    Blind (Option.map (Member.reset NodeInfo.bare)) (oneofBlock inner) (oneofBlock inner) := by
  have whole : Blind
      (fun o => ⟨o.head.reset NodeInfo.bare, o.body.map (Member.reset NodeInfo.bare)⟩)
      (oneof inner) (oneof inner) :=
    (blind_keyword _).seq fun first => (blind_claimComment first).seq fun comment =>
      (blind_simpleName _).seq fun _ => (blind_expect _ _).seq fun brace =>
      (bodies _ _).seq fun _ => (blind_close first comment (some brace)).seq fun _ => .pure rfl
  refine whole.seq fun m => .pure ?_
  rw [Option.map_some, Member.reset, Member.resetAll_eq]

theorem blind_extendMember :
    Blind (Option.map (Member.reset NodeInfo.bare)) (extendMember inner) (extendMember inner) := by
  have whole : Blind
      (fun e => ⟨e.head.reset NodeInfo.bare, e.body.map (Member.reset NodeInfo.bare)⟩)
      (extend inner) (extend inner) :=
    (blind_keyword _).seq fun first => (blind_claimComment first).seq fun comment =>
      (blind_qualifiedName _).seq fun _ => (blind_expect _ _).seq fun brace =>
      (bodies _ _).seq fun _ => (blind_close first comment (some brace)).seq fun _ => .pure rfl
  refine whole.seq fun m => .pure ?_
  rw [Option.map_some, Member.reset, Member.resetAll_eq]

theorem blind_groupMember :
    Blind (Option.map (Member.reset NodeInfo.bare)) (groupMember inner) (groupMember inner) := by
  have whole : Blind
      (fun g => ⟨g.head.reset NodeInfo.bare, g.body.map (Member.reset NodeInfo.bare)⟩)
      (group inner) (group inner) :=
    blind_current.seq fun first => (blind_passLabel _).seq fun _ => (blind_keyword _).seq fun _ =>
      (blind_claimComment first).seq fun comment => (blind_simpleName _).seq fun _ =>
      (blind_expect _ _).seq fun _ => (blind_integer _).seq fun _ =>
      blind_optionalBrackets.seq fun _ => (blind_expect _ _).seq fun brace =>
      (bodies _ _).seq fun _ => (blind_close first comment (some brace)).seq fun _ => .pure rfl
  refine whole.seq fun m => .pure ?_
  rw [Option.map_some, Member.reset, Member.resetAll_eq]

omit bodies in
theorem blind_startsBlock (word : Text) : Blind id (startsBlock word) (startsBlock word) := by
  refine blind_get.seq fun r => .pure ?_
  simp only [Reader.current_stripped, Reader.peek_stripped]
  rfl

omit bodies in
theorem blind_startsGroupAt (distance : Nat) :
    Blind id (startsGroupAt distance) (startsGroupAt distance) := by
  refine blind_get.seq fun r => .pure ?_
  simp only [Reader.peek_stripped]
  rfl

omit bodies in
theorem blind_startsGroup : Blind id startsGroup startsGroup :=
  (blind_startsGroupAt 0).seq fun _ => .ite (.pure rfl) <|
    blind_current.seq fun _ => .ite (blind_startsGroupAt 1) (.pure rfl)

omit bodies in
theorem blind_fieldMember :
    Blind (Option.map (Member.reset NodeInfo.bare)) fieldMember fieldMember :=
  blind_field.seq fun _ => .pure rfl

omit bodies in
theorem blind_optionMember :
    Blind (Option.map (Member.reset NodeInfo.bare)) optionMember optionMember :=
  blind_optionStatement.seq fun _ => .pure rfl

theorem blind_namedMember :
    Blind (Option.map (Member.reset NodeInfo.bare)) (namedMember inner)
      (namedMember inner) :=
  blind_current.seq fun _ => .ite blind_optionMember <|
    .ite ((blind_reserved _).seq fun _ => .pure rfl) <|
    .ite (blind_extensions.seq fun _ => .pure rfl) <|
    (blind_startsBlock _).seq fun _ => .ite (blind_nestedMessage bodies) <|
    (blind_startsBlock _).seq fun _ => .ite (blind_enum.seq fun _ => .pure rfl) <|
    (blind_startsBlock _).seq fun _ => .ite (blind_oneofBlock bodies) <|
    (blind_startsBlock _).seq fun _ => .ite (blind_extendMember bodies) <|
    (blind_peek 1).seq fun _ => .ite (blind_mapField.seq fun _ => .pure rfl) <|
    blind_startsGroup.seq fun _ => .ite (blind_groupMember bodies) blind_fieldMember

theorem blind_member (kind : BodyKind) :
    Blind (Option.map (Member.reset NodeInfo.bare)) (member inner kind)
      (member inner kind) := by
  cases kind with
  | message =>
    refine blind_current.seq fun token => ?_
    simp only [Token.kind_stripped]
    split
    · exact blind_advance.seq fun _ => .pure rfl
    · exact blind_namedMember bodies
    · exact blind_namedMember bodies
    · exact blind_reject _ _
  | oneof =>
    exact (blind_accept _).seq fun _ => .ite (.pure rfl) <| (blind_checkWord _).seq fun _ =>
      .ite blind_optionMember <| (blind_startsGroupAt 0).seq fun _ =>
      .ite (blind_groupMember bodies) blind_fieldMember
  | extend =>
    exact (blind_accept _).seq fun _ => .ite (.pure rfl) <| blind_startsGroup.seq fun _ =>
      .ite (blind_groupMember bodies) blind_fieldMember

end Members

/-- By induction on how many bodies may be inside each other: the members of a body are blind
if the bodies inside them are. -/
theorem blindBodies_memberBodyUpTo (fuel : Nat) : BlindBodies (memberBodyUpTo fuel) := by
  induction fuel with
  | zero => exact fun _ block => blind_tooDeep block _
  | succ n ih => exact fun kind block => blind_body block (blind_member ih kind)

theorem blindBodies_memberBody : BlindBodies memberBody :=
  blindBodies_memberBodyUpTo maxNesting

/-! ### Files -/

/-- What is declared does not depend on places and comments. -/
theorem declares_bare (what : SingleDeclaration) (items : List Item) :
    declares what (items.map Item.bare) = declares what items := by
  rw [declares, declares, List.any_map]
  congr 1
  funext i
  cases i <;> rfl

theorem blind_once (what : SingleDeclaration) (earlier : List Item) {rule : Rule Item}
    (h : Blind Item.bare rule rule) :
    Blind (Option.map Item.bare) (once what earlier rule)
      (once what (earlier.map Item.bare) rule) := by
  unfold once
  rw [declares_bare]
  exact .ite (blind_reject _ _) (h.seq fun _ => .pure rfl)

theorem blind_memberItem {rule : Rule (Option Member)}
    (h : Blind (Option.map (Member.reset NodeInfo.bare)) rule rule) :
    Blind (Option.map Item.bare) (memberItem rule) (memberItem rule) :=
  h.seq fun o => .pure (by cases o <;> rfl)

theorem blind_syntaxLevel :
    Blind (fun d => ⟨d.version, d.info.bare⟩) syntaxLevel syntaxLevel :=
  (blind_keyword _).seq fun first => (blind_claimComment first).seq fun comment =>
    (blind_expect _ _).seq fun _ => (blind_expect _ _).seq fun _ => (blind_expect _ _).seq fun _ =>
    (blind_close first comment none).seq fun _ => .pure rfl

theorem blind_edition : Blind (fun d => ⟨d.edition, d.info.bare⟩) edition edition :=
  (blind_keyword _).seq fun first => (blind_claimComment first).seq fun comment =>
    (blind_expect _ _).seq fun _ => (blind_expect _ _).seq fun _ => (blind_expect _ _).seq fun _ =>
    (blind_close first comment none).seq fun _ => .pure rfl

theorem blind_package : Blind (fun d => ⟨d.name.unplaced, d.info.bare⟩) package package :=
  (blind_keyword _).seq fun first => (blind_claimComment first).seq fun comment =>
    (blind_qualifiedName _).seq fun _ => (blind_expect _ _).seq fun _ =>
    (blind_close first comment none).seq fun _ => .pure rfl

theorem blind_importing :
    Blind (fun d => ⟨d.path.unplaced, d.modifier, d.info.bare⟩) importing importing := by
  have modifier : Blind id importModifier importModifier :=
    (blind_checkWord _).seq fun _ => .ite (blind_advance.seq fun _ => .pure rfl) <|
      (blind_checkWord _).seq fun _ => .ite (blind_advance.seq fun _ => .pure rfl) (.pure rfl)
  exact (blind_keyword _).seq fun first => (blind_claimComment first).seq fun comment =>
    modifier.seq fun _ => (blind_expect _ _).seq fun _ => (blind_expect _ _).seq fun _ =>
    (blind_close first comment none).seq fun _ => .pure rfl

theorem blind_namedItem (earlier : List Item) :
    Blind (Option.map Item.bare) (namedItem earlier) (namedItem (earlier.map Item.bare)) := by
  have bodies := blindBodies_memberBody
  exact blind_current.seq fun _ =>
    .ite (blind_once _ _ (blind_syntaxLevel.seq fun _ => .pure rfl)) <|
    .ite (blind_once _ _ (blind_edition.seq fun _ => .pure rfl)) <|
    .ite (blind_once _ _ (blind_package.seq fun _ => .pure rfl)) <|
    .ite (blind_importing.seq fun _ => .pure rfl) <|
    .ite (blind_memberItem blind_optionMember) <|
    .ite (blind_memberItem (blind_nestedMessage bodies)) <|
    .ite (blind_enum.seq fun _ => .pure rfl) <|
    .ite (blind_service.seq fun _ => .pure rfl) <|
    .ite (blind_memberItem (blind_extendMember bodies)) (blind_reject _ _)

/-- One statement, or the recovery from a faulty one. -/
theorem blind_itemStep (earlier : List Item) :
    Blind (Option.map Item.bare) (itemStep earlier) (itemStep (earlier.map Item.bare)) := by
  refine Blind.recovering ?_ fun f => (blind_record f).seq fun _ =>
    (Blind.change Reader.skipStatement_stripped).seq fun _ => .pure rfl
  refine blind_current.seq fun token => ?_
  simp only [Token.kind_stripped]
  split
  · exact blind_advance.seq fun _ => .pure rfl
  · exact blind_namedItem earlier
  · exact blind_reject _ _

theorem blind_itemsUpTo (fuel : Nat) (earlier : List Item) :
    Blind (List.map Item.bare) (itemsUpTo fuel earlier)
      (itemsUpTo fuel (earlier.map Item.bare)) := by
  induction fuel generalizing earlier with
  | zero => exact .pure List.map_reverse.symm
  | succ fuel ih =>
    refine blind_get.seq fun r => ?_
    rw [Reader.atEnd_stripped]
    refine .ite (.pure List.map_reverse.symm) ((blind_itemStep earlier).seq fun o => ?_)
    rw [Option.toList_map, ← List.map_append]
    exact ih _

/-- **The rule for a whole file is blind.** -/
theorem blind_items : Blind (List.map Item.bare) items items :=
  blind_get.seq fun r => by
    rw [Reader.stripped, List.length_map]
    exact blind_itemsUpTo _ []

end Rule

/-! ### Texts with the same tokens -/

/-- A file without places and comments. -/
def SchemaFile.bare (f : SchemaFile) : SchemaFile :=
  ⟨f.uri, Span.empty, f.items.map Item.bare, f.faults.map SyntaxFault.unplaced⟩

/-- The token that a lexeme is without a place and comments. -/
def Lexeme.token (l : Lexeme) : Token := ⟨l.kind, l.text, Span.empty, none, none⟩

/-- The lexemes of a text are all that is left when its tokens are stripped. -/
theorem Reader.stripped_ofText (t : Text) :
    (ofStream (TokenStream.ofText t)).stripped =
      ⟨[], ((TokenStream.ofText t).tokens.map Token.lexeme).map Lexeme.token,
        Lexeme.token ⟨.endOfFile, []⟩, none, [], 0⟩ := by
  rw [List.map_map]
  rfl

/-- **What is read depends on the lexemes alone.** -/
theorem SchemaFile.bare_parse {t t' : Text} (uri : Text)
    (same : (TokenStream.ofText t').tokens.map Token.lexeme =
      (TokenStream.ofText t).tokens.map Token.lexeme) :
    (parse uri t').bare = (parse uri t).bare := by
  obtain ⟨items, last, run, file, -⟩ := exists_run uri t
  obtain ⟨items', last', run', file', -⟩ := exists_run uri t'
  have ends := Rule.blind_items (Reader.ofStream (TokenStream.ofText t'))
  rw [Reader.stripped_ofText, same, ← Reader.stripped_ofText, Rule.blind_items, run, run'] at ends
  injection ends with tree readers
  have faults : last.faults.map SyntaxFault.unplaced = last'.faults.map SyntaxFault.unplaced :=
    congrArg Reader.faults readers
  simp only [file, file', bare, List.map_reverse, tree, faults]

/-- **Layout never changes what is read.**  Write the tokens of a text one after the other,
with any blanks between neighbours.  The new text has the same tokens, and it gives the
same file with the same faults, apart from places and comments. -/
theorem respaced_text_is_read_alike {source layout : Text}
    (respaced : Text.Respaced ((TokenStream.ofText source).tokens.map (·.text)) layout) :
    (TokenStream.ofText layout).all.map Token.lexeme =
        (TokenStream.ofText source).all.map Token.lexeme ∧
      ∀ uri, (SchemaFile.parse uri layout).bare = (SchemaFile.parse uri source).bare ∧
        (SchemaFile.parse uri layout).faults.map (·.cause.message) =
          (SchemaFile.parse uri source).faults.map (·.cause.message) := by
  have same := TokenStream.lexemes_respaced respaced
  refine ⟨?_, fun uri => ?_⟩
  · rw [TokenStream.all, TokenStream.all, List.map_append, List.map_append, same]
    rfl
  · have files := SchemaFile.bare_parse uri same
    refine ⟨files, ?_⟩
    have messages := congrArg (fun f => f.faults.map (·.cause.message)) files
    simp only [SchemaFile.bare, List.map_map] at messages
    exact messages

namespace Respaced

/-- Tokens close together, a comment, a character that belongs to no token, and a string
that is not closed. -/
def crowded : Text := "option a=-.5;//x\n#\"M"

/-- The tokens of the crowded text with blanks between them. -/
def airy : Text :=
  "option" ++ (" " ++ ("a" ++ ("\t" ++ ("=" ++ ("\n\n" ++ ("-.5" ++ (" \n" ++ (";" ++ (" " ++
    "\"M")))))))))

/-- The option and the complaint about the open string are the same in both texts. -/
theorem crowded_and_airy_text_are_read_alike :
    Text.Respaced ((TokenStream.ofText crowded).tokens.map (·.text)) airy ∧
      (SchemaFile.parse "a.proto" airy).bare = (SchemaFile.parse "a.proto" crowded).bare ∧
      (SchemaFile.parse "a.proto" airy).faults.map (·.cause.message) =
        [Text.ofString "Unexpected token '\"M'"] := by
  have texts : (TokenStream.ofText crowded).tokens.map (·.text) =
      ["option", "a", "=", "-.5", ";", "\"M"].map Text.ofString := by decide +kernel
  have respaced : Text.Respaced ((TokenStream.ofText crowded).tokens.map (·.text)) airy := by
    rw [texts]
    exact .more _ (by decide) (by decide) <| .more _ (by decide) (by decide) <|
      .more _ (by decide) (by decide) <| .more _ (by decide) (by decide) <|
      .more _ (by decide) (by decide) <| .one _
  obtain ⟨tree, messages⟩ := (respaced_text_is_read_alike respaced).2 "a.proto"
  exact ⟨respaced, tree, messages.trans (by decide +kernel)⟩

end Respaced

end ProtoAtlas
