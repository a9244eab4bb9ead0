/-
# Printed members are read back

A member of a body is told from the others by at most three lexemes.  `chosenMember`
says which rule the lexemes ahead choose, and `run_namedMember` that the grammar
chooses that rule.  The words behind which something else than a field may stand are
the opening words, so fields are what is left.

The rules for blocks take the rule for the bodies inside them as an argument.  Each
reads its block back if that rule reads the body back, and
`Rule.readBack_of_wellFormed` ties them together by induction on the tree: a tree that
opens at most `n` bodies inside each other is read where `n` more bodies may be open.
-/

import ProtoAtlas.Proofs.Grammar.ReadBack

namespace ProtoAtlas

open Lexeme (ahead word mark pieces)

namespace Lexeme

/-- Whether a keyword starts a block: a name follows, and after it no `=`. -/
def startsBlock (word : Text) (ls : List Lexeme) : Bool :=
  (ahead ls 0).isWord word && ((ahead ls 1).kind = .identifier || (ahead ls 1).kind = .dot) &&
    (ahead ls 2).kind ≠ .equals

/-- Whether a group starts at a distance. -/
def startsGroupAt (distance : Nat) (ls : List Lexeme) : Bool :=
  (ahead ls distance).isWord "group" && (ahead ls (distance + 1)).kind = .identifier &&
    (ahead ls (distance + 2)).kind = .equals

/-- Whether a group starts, possibly behind a label. -/
def startsGroup (ls : List Lexeme) : Bool :=
  if startsGroupAt 0 ls then true
  else if (Label.ofText? (ahead ls 0).text).isSome then startsGroupAt 1 ls
  else false

end Lexeme

namespace Rule

variable {d : Nat}

/-! ### Looking ahead at members -/

section Look

variable {r : Reader}

/-- What a reader finds out about blocks and groups shows in the lexemes. -/
theorem run_startsBlock (hr : r.Bare d) (word : Text) :
    startsBlock word r = .ok (Lexeme.startsBlock word r.lexemes) r := by
  rw [Lexeme.startsBlock, ← hr.lexeme_peek 0, ← hr.lexeme_peek 1, ← hr.lexeme_peek 2]
  rfl

theorem run_startsGroupAt (hr : r.Bare d) (distance : Nat) :
    startsGroupAt distance r = .ok (Lexeme.startsGroupAt distance r.lexemes) r := by
  rw [Lexeme.startsGroupAt, ← hr.lexeme_peek distance, ← hr.lexeme_peek (distance + 1),
    ← hr.lexeme_peek (distance + 2)]
  rfl

theorem run_startsGroup (hr : r.Bare d) :
    startsGroup r = .ok (Lexeme.startsGroup r.lexemes) r := by
  have text : r.current.text = (ahead r.lexemes 0).text := by
    rw [← hr.lexeme_peek 0]
    rfl
  refine (run_bind_ok (run_startsGroupAt hr 0) _).trans ?_
  unfold Lexeme.startsGroup
  split_ifs with here label
  · rfl
  · refine (run_bind_ok (run_current r) _).trans ?_
    rw [text, if_pos label]
    exact run_startsGroupAt hr 1
  · refine (run_bind_ok (run_current r) _).trans ?_
    rw [text, if_neg label]
    rfl

theorem reads_startsGroupAt (distance : Nat) {A : List Lexeme} :
    Reads d (startsGroupAt distance) A A (· = Lexeme.startsGroupAt distance A) :=
  Reads.look fun _ hr hA => hA ▸ run_startsGroupAt hr distance

theorem reads_startsGroup {A : List Lexeme} : Reads d startsGroup A A (· = Lexeme.startsGroup A) :=
  Reads.look fun _ hr hA => hA ▸ run_startsGroup hr

end Look

/-- The rule for a member of a body that the lexemes ahead choose. -/
def chosenMember (inner : BodyRule) (ls : List Lexeme) :
    BodyKind → Rule (Option Member)
  | .message =>
    if (ahead ls 0).isWord "option" then optionMember
    else if (ahead ls 0).isWord "reserved" then do
      return some (.reserved (← reserved maxFieldNumber))
    else if (ahead ls 0).isWord "extensions" then do return some (.extensions (← extensions))
    else if Lexeme.startsBlock "message" ls then nestedMessage inner
    else if Lexeme.startsBlock "enum" ls then do return some (.enum (← enum))
    else if Lexeme.startsBlock "oneof" ls then oneofBlock inner
    else if Lexeme.startsBlock "extend" ls then extendMember inner
    else if (ahead ls 0).isWord "map" && (ahead ls 1).kind = .leftAngle then do
      return some (.map (← mapField))
    else if Lexeme.startsGroup ls then groupMember inner
    else fieldMember
  | .oneof =>
    if (ahead ls 0).isWord "option" then optionMember
    else if Lexeme.startsGroupAt 0 ls then groupMember inner
    else fieldMember
  | .extend => if Lexeme.startsGroup ls then groupMember inner else fieldMember

theorem run_ite_right {α : Type} {c : Prop} [Decidable c] {x y z : Rule α} {r : Reader}
    (h : y r = z r) : (if c then x else y) r = (if c then x else z) r := by
  split_ifs
  · rfl
  · exact h

/-- **The grammar chooses the rule that the lexemes ahead choose.** -/
theorem run_namedMember {r : Reader} (hr : r.Bare d) (inner : BodyRule) :
    namedMember inner r = chosenMember inner r.lexemes .message r := by
  have here : ∀ w, r.current.isWord w = (ahead r.lexemes 0).isWord w := by
    intro w
    rw [← hr.lexeme_peek 0]
    rfl
  have next : (r.peek 1).kind = (ahead r.lexemes 1).kind := by
    rw [← hr.lexeme_peek 1]
    rfl
  refine (run_bind_ok (run_current r) _).trans ?_
  rw [here, here, here, here]
  refine run_ite_right (run_ite_right (run_ite_right ?_))
  refine (run_bind_ok (run_startsBlock hr "message") _).trans (run_ite_right ?_)
  refine (run_bind_ok (run_startsBlock hr "enum") _).trans (run_ite_right ?_)
  refine (run_bind_ok (run_startsBlock hr "oneof") _).trans (run_ite_right ?_)
  refine (run_bind_ok (run_startsBlock hr "extend") _).trans (run_ite_right ?_)
  refine (run_bind_ok (run_peek 1 r) _).trans ?_
  rw [next]
  refine run_ite_right ?_
  exact run_bind_ok (run_startsGroup hr) _

/-! ### What members start with -/

/-- A member starts with a word or a dot. -/
theorem printed_member_cons {kind : BodyKind} {m : Member} (ok : m.WellFormed kind) :
    ∃ l ls, m.printed = l :: ls ∧ (l.kind = .identifier ∨ l.kind = .dot) := by
  cases ok with
  | @field kind x ok =>
    obtain ⟨l, ls, written, opens⟩ := ok.type.pieces_cons
    rw [Member.printed, Field.printed, written]
    cases x.label with
    | none =>
      refine ⟨_, _, rfl, ?_⟩
      rcases opens with rfl | ⟨first, -, rfl⟩
      · exact .inr rfl
      · exact .inl rfl
    | some label => exact ⟨_, _, rfl, .inl rfl⟩
  | @group kind head body ok inner =>
    rw [Member.printed, GroupHead.printed]
    cases head.label with
    | none => exact ⟨_, _, rfl, .inl rfl⟩
    | some label => exact ⟨_, _, rfl, .inl rfl⟩
  | _ => exact ⟨_, _, rfl, .inl rfl⟩

/-- A field starts with a label or with its type, and neither is a keyword. -/
theorem isWord_field {x : Field} (ok : x.WellFormed) {w : Text} (listed : w ∈ Text.openingWords)
    (unlabelled : ∀ label : Label, label.word ≠ w) (rest : List Lexeme) :
    (ahead (x.printed ++ rest) 0).isWord w = false := by
  rw [Field.printed]
  simp only [List.append_assoc]
  cases x.label with
  | none => exact isWord_type ok.type listed _
  | some label =>
    exact (Lexeme.isWord_word label.word w).trans (decide_eq_false (unlabelled label))

/-- A field is no group: behind its label stands its type. -/
theorem startsGroup_field {x : Field} (ok : x.WellFormed) (rest : List Lexeme) :
    Lexeme.startsGroup (x.printed ++ rest) = false := by
  have here : Lexeme.startsGroupAt 0 (x.printed ++ rest) = false := by
    rw [Lexeme.startsGroupAt, isWord_field ok (by decide) (by intro label; cases label <;> decide),
      Bool.false_and, Bool.false_and]
  rw [Lexeme.startsGroup, here, if_neg Bool.false_ne_true, Field.printed]
  simp only [List.append_assoc]
  cases x.label with
  | none =>
    rw [Label.printed_none, List.nil_append, ofText?_type ok.type]
    rfl
  | some label =>
    rw [Label.printed_some, List.singleton_append, Lexeme.startsGroupAt, Lexeme.ahead_cons_succ,
      isWord_type ok.type (by decide), Bool.false_and, Bool.false_and, ite_self]

/-- **What is left is a field**, in every kind of body. -/
theorem chosenMember_field {x : Field} (ok : x.WellFormed) (inner : BodyRule)
    (rest : List Lexeme) (kind : BodyKind) :
    chosenMember inner (x.printed ++ rest) kind = fieldMember := by
  have plain : ∀ w ∈ (["option", "reserved", "extensions", "message", "enum", "oneof", "extend",
      "map", "group"].map Text.ofString), (ahead (x.printed ++ rest) 0).isWord w = false := by
    intro w hw
    refine isWord_field ok ?_ (fun label => ?_) rest
    · revert w
      decide
    · revert w
      cases label <;> decide
  have block : ∀ w, (ahead (x.printed ++ rest) 0).isWord w = false →
      Lexeme.startsBlock w (x.printed ++ rest) = false := by
    intro w other
    rw [Lexeme.startsBlock, other, Bool.false_and, Bool.false_and]
  -- Every branch but the last asks for a keyword, or for a group behind a label.
  cases kind with
  | message =>
    rw [chosenMember, plain "option" (by decide), plain "reserved" (by decide),
      plain "extensions" (by decide), block "message" (plain _ (by decide)),
      block "enum" (plain _ (by decide)), block "oneof" (plain _ (by decide)),
      block "extend" (plain _ (by decide)), plain "map" (by decide), startsGroup_field ok]
    rfl
  | oneof =>
    rw [chosenMember, plain "option" (by decide), Lexeme.startsGroupAt, plain "group" (by decide)]
    rfl
  | extend =>
    rw [chosenMember, startsGroup_field ok]
    rfl

/-- A group is found behind its label, but in a oneof only without one. -/
theorem chosenMember_group {head : GroupHead} {body : List Member} {kind : BodyKind}
    (unlabelled : kind = .oneof → head.label = none) (inner : BodyRule)
    (rest : List Lexeme) :
    chosenMember inner ((Member.group head body).printed ++ rest) kind = groupMember inner := by
  rw [Member.printed, GroupHead.printed]
  cases kind with
  | message =>
    cases head.label with
    | none => rfl
    | some label => cases label <;> rfl
  | oneof =>
    rw [unlabelled rfl]
    rfl
  | extend =>
    cases head.label with
    | none => rfl
    | some label => cases label <;> rfl

/-- An extend block is one because no `=` stands behind its name. -/
theorem chosenMember_extend {head : ExtendHead} {body : List Member}
    (target : head.target.text.IsType) (inner : BodyRule) (rest : List Lexeme) :
    chosenMember inner ((Member.extend head body).printed ++ rest) .message =
      extendMember inner := by
  have starts : Lexeme.startsBlock "extend" ((Member.extend head body).printed ++ rest) = true := by
    rw [Member.printed]
    simp only [List.append_assoc, List.cons_append]
    rw [Lexeme.startsBlock, Bool.and_eq_true, Bool.and_eq_true, Bool.or_eq_true, decide_eq_true_eq,
      decide_eq_true_eq, decide_eq_true_eq]
    exact ⟨⟨Lexeme.isWord_word "extend" "extend", kind_type target _⟩,
      kind_ahead_type target _ _ TokenKind.noConfusion _⟩
  rw [chosenMember, starts]
  rfl

/-! ### Blocks -/

/-- A member was read that is `m` up to places. -/
def ReadAs (m : Member) (o : Option Member) : Prop :=
  ∃ a, o = some a ∧ a.reset NodeInfo.unplaced = m.reset NodeInfo.bare

/-- A rule that reads a body back, up to its closing brace. -/
def ReadsBody (d : Nat) (rule : Rule (List Member)) (body : List Member) : Prop :=
  ∀ rest, Reads d rule (body.flatMap Member.printed ++ mark .rightBrace :: rest) rest
    fun as => as.map (Member.reset NodeInfo.unplaced) = body.map (Member.reset NodeInfo.bare)

/-- A rule that reads a declaration reads it as a member. -/
theorem Reads.asMember {α : Type} {x : Rule α} {mk : α → Member} {m : Member}
    {A B : List Lexeme}
    (h : Reads d x A B fun a => (mk a).reset NodeInfo.unplaced = m.reset NodeInfo.bare) :
    Reads d (do return some (mk (← x))) A B (ReadAs m) :=
  h.bind fun a ha => Reads.pure ⟨mk a, rfl, ha⟩

section Blocks

variable {inner : BodyRule} {body : List Member} {rest : List Lexeme}

/-- A message is read back if its body is. -/
theorem reads_message {head : BlockHead}
    (reads : ∀ block, ReadsBody d (inner .message block) body) :
    Reads d (message inner) ((Member.message head body).printed ++ rest) rest fun m =>
      (Member.message m.head m.body).reset NodeInfo.unplaced =
        (Member.message head body).reset NodeInfo.bare := by
  rw [Member.printed, Member.allPrinted_eq]
  simp only [List.append_assoc, List.cons_append, List.nil_append]
  refine reads_block "message" head.name.text _ _ (fun _ => reads _ rest) ?_
  intro name members info hname hmembers hinfo
  simp only [Member.reset, BlockHead.reset, Member.resetAll_eq, hmembers, hinfo, NodeInfo.bare,
    Name.unplaced_eq hname]

/-- A oneof is read back if its body is. -/
theorem reads_oneof {head : BlockHead} (reads : ∀ block, ReadsBody d (inner .oneof block) body) :
    Reads d (oneof inner) ((Member.oneof head body).printed ++ rest) rest fun m =>
      (Member.oneof m.head m.body).reset NodeInfo.unplaced =
        (Member.oneof head body).reset NodeInfo.bare := by
  rw [Member.printed, Member.allPrinted_eq]
  simp only [List.append_assoc, List.cons_append, List.nil_append]
  refine reads_block "oneof" head.name.text _ _ (fun _ => reads _ rest) ?_
  intro name members info hname hmembers hinfo
  simp only [Member.reset, BlockHead.reset, Member.resetAll_eq, hmembers, hinfo, NodeInfo.bare,
    Name.unplaced_eq hname]

/-- An extend block is read back if its body is. -/
theorem reads_extend {head : ExtendHead} (target : head.target.text.IsType)
    (reads : ∀ block, ReadsBody d (inner .extend block) body) :
    Reads d (extend inner) ((Member.extend head body).printed ++ rest) rest fun m =>
      (Member.extend m.head m.body).reset NodeInfo.unplaced =
        (Member.extend head body).reset NodeInfo.bare := by
  rw [Member.printed, Member.allPrinted_eq]
  simp only [List.append_assoc, List.cons_append, List.nil_append]
  refine reads_opening "extend" fun first => ?_
  refine (reads_qualifiedName target _ TokenKind.noConfusion).bind fun name hname => ?_
  refine reads_braced (reads_expect _ rfl) (reads _ rest) ?_
  intro members info hmembers hinfo
  simp only [Member.reset, ExtendHead.reset, Member.resetAll_eq, hmembers, hinfo, NodeInfo.bare,
    Name.unplaced_eq hname]

/-- A group is read back if its body is; `group` itself is no label. -/
theorem reads_group {head : GroupHead} (ok : head.WellFormed)
    (reads : ∀ block, ReadsBody d (inner .message block) body) :
    Reads d (group inner) ((Member.group head body).printed ++ rest) rest fun m =>
      (Member.group m.head m.body).reset NodeInfo.unplaced =
        (Member.group head body).reset NodeInfo.bare := by
  rw [Member.printed, Member.allPrinted_eq, GroupHead.printed, Field.numbered]
  simp only [List.append_assoc, List.cons_append, List.nil_append]
  refine reads_current.bind fun first hfirst => ?_
  have label : Label.ofText? first.text = head.label := by
    rw [hfirst.text]
    cases head.label with
    | none => exact ofText?_group
    | some label => exact ofText?_word label
  dsimp only
  rw [label]
  refine (reads_passLabel head.label).bind fun _ _ => ?_
  refine (reads_keyword "group").bind fun _ _ => ?_
  refine (reads_claimComment hfirst.2).after ?_
  refine (reads_simpleName _ _).bind fun name hname => ?_
  refine reads_numbered head.number ok.options _ _ TokenKind.noConfusion fun os hos => ?_
  refine reads_braced (reads_expect _ rfl) (reads _ rest) ?_
  intro members info hmembers hinfo
  simp only [Member.reset, GroupHead.reset, Member.resetAll_eq, hmembers, hinfo, hos,
    NodeInfo.bare, Name.unplaced_eq hname]

end Blocks

/-! ### Members and bodies -/

/-- **What the lexemes ahead choose reads the member of a body.** -/
theorem reads_chosen {kind : BodyKind} {m : Member} (ok : m.WellFormed kind)
    {inner : BodyRule} {rest : List Lexeme}
    (chosen : Reads d (chosenMember inner (m.printed ++ rest) kind) (m.printed ++ rest) rest
      (ReadAs m)) :
    Reads d (member inner kind) (m.printed ++ rest) rest (ReadAs m) := by
  obtain ⟨l, ls, written, opens⟩ := printed_member_cons ok
  have unended : (ahead (m.printed ++ rest) 0).kind ≠ .semicolon := by
    rw [written]
    rcases opens with opens | opens
    · exact ne_of_eq_of_ne opens TokenKind.noConfusion
    · exact ne_of_eq_of_ne opens TokenKind.noConfusion
  cases kind with
  | message =>
    have named : Reads d (namedMember inner) (m.printed ++ rest) rest (ReadAs m) := by
      intro r hr hA
      rw [run_namedMember hr, hA]
      exact chosen r hr hA
    refine reads_current.bind fun token htoken => ?_
    have kind : token.kind = l.kind := by
      rw [htoken.kind, written]
      rfl
    rw [kind]
    rcases opens with opens | opens
    · rw [opens]
      exact named
    · rw [opens]
      exact named
  | oneof =>
    refine (reads_accept_not unended).after (Reads.ite_neg Bool.false_ne_true ?_)
    refine (reads_checkWord "option").after ?_
    rw [chosenMember] at chosen
    by_cases option : (ahead (m.printed ++ rest) 0).isWord "option" = true
    · rw [if_pos option] at chosen ⊢
      exact chosen
    · rw [if_neg option] at chosen ⊢
      exact (reads_startsGroupAt 0).after chosen
  | extend =>
    refine (reads_accept_not unended).after (Reads.ite_neg Bool.false_ne_true ?_)
    exact reads_startsGroup.after chosen

/-- A member that is read back wherever as many bodies may be open as it opens, unless
a group in a oneof has a label. -/
def ReadBack (kind : BodyKind) (m : Member) : Prop :=
  ∀ d fuel rest, m.depth ≤ fuel → d + m.depth ≤ maxNesting → m.choicesUnlabelled = true →
    (kind = .oneof → m.isLabelledGroup = false) →
    Reads d (member (memberBodyUpTo fuel) kind) (m.printed ++ rest) rest (ReadAs m)

/-- A body is read back if its members are. -/
theorem readsBody_memberBodyUpTo {kind : BodyKind} {body : List Member} {fuel : Nat}
    (ok : ∀ m ∈ body, m.WellFormed kind) (each : ∀ m ∈ body, ReadBack kind m)
    (enough : 1 + Member.depthOf body ≤ fuel) (shallow : d + (1 + Member.depthOf body) ≤ maxNesting)
    (plain : Member.allChoicesUnlabelled body = true)
    (unlabelled : kind = .oneof → ∀ m ∈ body, m.isLabelledGroup = false) (block : Block) :
    ReadsBody d (memberBodyUpTo fuel kind block) body := by
  obtain ⟨fuel, rfl⟩ := Nat.exists_eq_add_one_of_ne_zero (show fuel ≠ 0 by omega)
  rw [Member.allChoicesUnlabelled_eq, List.all_eq_true] at plain
  intro rest
  refine reads_body (by omega) (reads_members (fun m hm next => ?_) fun m hm => ?_)
  · have depth := Member.depth_le_depthOf hm
    exact each m hm (d + 1) fuel next (by omega) (by omega) (plain m hm)
      fun choice => unlabelled choice m hm
  · obtain ⟨l, ls, written, opens⟩ := printed_member_cons (ok m hm)
    refine ⟨l, ls, written, ?_⟩
    rcases opens with opens | opens
    · exact ne_of_eq_of_ne opens TokenKind.noConfusion
    · exact ne_of_eq_of_ne opens TokenKind.noConfusion

/-- **Every well-formed member is read back**, by induction on the tree. -/
theorem readBack_of_wellFormed {kind : BodyKind} {m : Member} (ok : m.WellFormed kind) :
    ReadBack kind m := by
  -- `ReadBack` is about any number of open bodies, so a body is read with one more than its
  -- block.
  induction ok with
  | @field kind x ok =>
    intro d fuel rest _ _ _ _
    refine reads_chosen (.field ok) ?_
    rw [Member.printed, chosenMember_field ok]
    exact Reads.asMember ((reads_field ok).imp fun _ h => congrArg Member.field h)
  | map ok =>
    intro d fuel rest _ _ _ _
    refine reads_chosen (.map ok) ?_
    exact Reads.asMember ((reads_mapField ok).imp fun _ h => congrArg Member.map h)
  | @group kind head body ok inner each =>
    intro d fuel rest enough shallow plain unlabelled
    refine reads_chosen (.group ok inner) ?_
    have alone : kind = .oneof → head.label = none := fun choice =>
      Option.not_isSome_iff_eq_none.1 (Bool.eq_false_iff.1 (unlabelled choice))
    rw [chosenMember_group alone]
    exact Reads.asMember (reads_group ok
      (readsBody_memberBodyUpTo inner each enough shallow plain (by simp)))
  | @oneof head body name inner each =>
    intro d fuel rest enough shallow plain unlabelled
    obtain ⟨choices, plain⟩ := Bool.and_eq_true_iff.1 plain
    have alone : ∀ m ∈ body, m.isLabelledGroup = false := by
      simpa using choices
    refine reads_chosen (.oneof name inner) ?_
    exact Reads.asMember (reads_oneof
      (readsBody_memberBodyUpTo inner each enough shallow plain fun _ => alone))
  | @message head body name inner each =>
    intro d fuel rest enough shallow plain unlabelled
    refine reads_chosen (.message name inner) ?_
    exact Reads.asMember (reads_message
      (readsBody_memberBodyUpTo inner each enough shallow plain (by simp)))
  | enum ok =>
    intro d fuel rest _ shallow _ _
    refine reads_chosen (.enum ok) ?_
    exact Reads.asMember ((reads_enum ok shallow).imp fun _ h => congrArg Member.enum h)
  | @extend head body target inner each =>
    intro d fuel rest enough shallow plain unlabelled
    refine reads_chosen (.extend target inner) ?_
    rw [chosenMember_extend target]
    exact Reads.asMember (reads_extend target
      (readsBody_memberBodyUpTo inner each enough shallow plain (by simp)))
  | @option kind o place ok =>
    intro d fuel rest _ _ _ _
    refine reads_chosen (.option place ok) ?_
    have chosen : Reads d optionMember (o.printed ++ rest) rest (ReadAs (.option o)) :=
      Reads.asMember ((reads_optionStatement ok).imp fun _ h => congrArg Member.option h)
    cases kind with
    | message => exact chosen
    | oneof => exact chosen
    | extend => exact absurd rfl place
  | reserved ok =>
    intro d fuel rest _ _ _ _
    refine reads_chosen (.reserved ok) ?_
    exact Reads.asMember ((reads_reserved ok).imp fun _ h => congrArg Member.reserved h)
  | extensions ok =>
    intro d fuel rest _ _ _ _
    refine reads_chosen (.extensions ok) ?_
    exact Reads.asMember ((reads_extensions ok).imp fun _ h => congrArg Member.extensions h)

end Rule

end ProtoAtlas
