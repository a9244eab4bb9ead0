/-
# All grammar rules are traced

One statement for each rule that reads a declaration or a body: it goes on to the end of its
statement, and its node lies on the tokens it has taken and has the comment it has claimed
(`Rule.Declares`).  Each proof follows its rule, and the draft of the node at its end lists
what the rule has read: a part that is neither a name nor an option in brackets is passed.

The result is what reading a file amounts to (`SchemaFile.exists_gives`).  All that is shown
of files that were read follows from it.
-/

import ProtoAtlas.Proofs.Grammar.Loops
import ProtoAtlas.Proofs.Grammar.Parts

namespace ProtoAtlas

open Node (Laid Draft)

namespace Rule

variable {α β : Type} {limit d : Nat}

/-! ### Shapes that rules share -/

/-- The number and the options of a field, behind its name. -/
theorem Follows.numbered {o : Reader} {u : List Token} {k : List Text}
    {names : List (Spelling × Name)} {what what' : Text} {f : Int → List OptionDecl → Rule β}
    {A : Reader → β → Prop} (draft : Draft u names [])
    (hf : ∀ w n options, Draft w names options → Follows o w k (f n options) A) :
    Follows o u k (expect .equals what >>= fun _ => integer what' >>= fun n =>
      optionalBrackets >>= f n) A :=
  (takes_expect _ (by decide)).seq fun _ _ _ =>
  (takes_integer _).seq fun _ _ _ =>
  takes_optionalBrackets.seq fun _ _ options =>
  hf _ _ _ ((draft.pass _ |>.pass _).brackets options.1 options.2)

/-- A block with a keyword and a name. -/
theorem declares_block {word what what' : Text} {inner : Name → Rule (List β)}
    {member : β → Node} {kinds : List NodeKind} {mk : Name → List β → NodeInfo → α}
    {node : α → Node} (h : ∀ name, TracedBody limit d kinds (inner name) member)
    (shape : ∀ name as info, (node (mk name as info)).info = info ∧
      (node (mk name as info)).spellings = [(.word, name)] ∧
      (node (mk name as info)).children = as.map member ∧
      (node (mk name as info)).members = as.map member ∧
      (node (mk name as info)).kind.inside = kinds) :
    Declares limit d (do
        let first ← keyword word
        let comment ← claimComment first
        let name ← simpleName what
        let brace ← expect .leftBrace what'
        let members ← inner name
        return mk name members (← close first comment (some brace))) node := by
  rintro o rfl
  exact (takes_keyword _).first fun _ =>
    .claim (List.cons_ne_nil _ _) fun _ =>
    (takes_simpleName _).seq fun _ _ name =>
    .enclosed (h _) (Draft.start.name name) (shape _)

/-- A keyword, `=` and a text in quotes. -/
theorem declares_level {word what what' what'' : Text} {mk : Text → NodeInfo → α}
    {node : α → Node} (shape : ∀ text info, (node (mk text info)).info = info ∧
      (node (mk text info)).spellings = [] ∧ (node (mk text info)).children = [] ∧
      (node (mk text info)).members = []) :
    Declares limit d (do
        let first ← keyword word
        let comment ← claimComment first
        let _ ← expect .equals what
        let value ← expect .string what'
        let _ ← expect .semicolon what''
        return mk (Literal.stringValue value.text) (← close first comment none)) node :=
  fun _ _ => (takes_keyword _).first fun _ =>
  .claim (List.cons_ne_nil _ _) fun _ =>
  (takes_expect _ (by decide)).seq fun _ _ _ =>
  (takes_expect _ (by decide)).seq fun _ _ _ =>
  .ended (.start (u := _)) (shape _)

/-! ### Options, fields and ranges -/

theorem declares_optionStatement : Declares limit d optionStatement OptionDecl.node :=
  fun _ _ => (takes_keyword _).first fun _ =>
  .claim (List.cons_ne_nil _ _) fun _ =>
  takes_optionName.seq fun _ _ name =>
  (takes_expect _ (by decide)).seq fun _ _ _ =>
  takes_optionValue.seq fun _ _ _ =>
  .ended ((Draft.start.name name).pass _ |>.pass _) fun _ => ⟨rfl, rfl, rfl, rfl⟩

theorem declares_field : Declares limit d field fun f => .member (.field f) := by
  refine fun o _ => .current <| .look (looks_peek 2) fun _ => follows_passLabel ?_ fun _ =>
    (takes_qualifiedName _).seq fun _ _ type =>
    .claim (by simp [type.ne_nil]) fun _ =>
    (takes_simpleName _).seq fun _ _ name =>
    .numbered ((Draft.start.name type).name name) fun _ _ _ draft =>
    .ended draft fun _ => ⟨rfl, rfl, rfl, rfl⟩
  intro found
  split_ifs at found
  · cases found
  · exact found

theorem declares_mapField : Declares limit d mapField fun m => .member (.map m) :=
  fun _ _ => (takes_keyword _).first fun _ =>
  .claim (List.cons_ne_nil _ _) fun _ =>
  (takes_expect _ (by decide)).seq fun _ _ _ =>
  (takes_simpleName _).seq fun _ _ key =>
  (takes_expect _ (by decide)).seq fun _ _ _ =>
  (takes_qualifiedName _).seq fun _ _ value =>
  (takes_expect _ (by decide)).seq fun _ _ _ =>
  (takes_simpleName _).seq fun _ _ name =>
  .numbered ((Draft.start.name key).pass _ |>.name value |>.pass _ |>.name name) fun _ _ _ draft =>
  .ended draft fun _ => ⟨rfl, rfl, rfl, rfl⟩

theorem declares_reserved (max : Int) :
    Declares limit d (reserved max) fun r => .member (.reserved r) :=
  fun _ _ => (takes_keyword _).first fun _ =>
  .claim (List.cons_ne_nil _ _) fun _ =>
  (takes_separatedBy (by decide) (takes_reservation max)).seq fun _ _ _ =>
  .ended .start fun _ => ⟨rfl, rfl, rfl, rfl⟩

theorem declares_extensions : Declares limit d extensions fun e => .member (.extensions e) :=
  fun _ _ => (takes_keyword _).first fun _ =>
  .claim (List.cons_ne_nil _ _) fun _ =>
  (takes_separatedBy (by decide) (takes_numberRange _)).seq fun _ _ _ =>
  takes_optionalBrackets.seq fun _ _ options =>
  .ended (Draft.start.brackets options.1 options.2) fun _ => ⟨rfl, rfl, rfl, rfl⟩

/-! ### Enums -/

theorem declares_enumValue : Declares limit d enumValue fun v => .enumValue v :=
  fun _ _ => (takes_expect _ (by decide)).first fun identifier =>
  .claim (List.cons_ne_nil _ _) fun _ =>
  .numbered ((Draft.start (u := [])).name (spelled_word identifier)) fun _ _ _ draft =>
  .ended draft fun _ => ⟨rfl, rfl, rfl, rfl⟩

theorem statement_enumMember :
    Statement limit d (NodeKind.inside (.member .enum)) enumMember EnumMember.node :=
  .orSemicolon fun o depth => .current <|
    .look (looks_peek 1) fun _ =>
    .ite (.declared (.member .option) declares_optionStatement depth (fun _ => rfl) (by decide)) <|
    .look (looks_peek 1) fun _ =>
    .ite (.declared (.member .reserved) (declares_reserved _) depth (fun _ => rfl) (by decide)) <|
    .declared .enumValue declares_enumValue depth (fun _ => rfl) (by decide)

theorem declares_enum (below : limit ≤ maxNesting) :
    Declares limit d enum fun e => .member (.enum e) :=
  declares_block (fun _ => tracedBody_body below _ statement_enumMember)
    fun _ _ _ => ⟨rfl, rfl, rfl, rfl, rfl⟩

/-! ### Services -/

theorem statement_rpcMember :
    Statement limit d (NodeKind.inside .rpc) rpcMember OptionDecl.node :=
  .orSemicolon fun o depth => .current <|
    .ite (.declared (.member .option) declares_optionStatement depth (fun _ => rfl) (by decide))
      (.reject (by simp))

theorem declares_rpc (below : limit ≤ maxNesting) : Declares limit d rpc fun r => .rpc r := by
  rintro o rfl
  refine (takes_keyword _).first fun _ =>
    .claim (List.cons_ne_nil _ _) fun _ =>
    (takes_simpleName _).seq fun _ _ name =>
    (takes_expect _ (by decide)).seq fun v₁ _ _ =>
    takes_stream.seq fun v₂ _ _ =>
    (takes_qualifiedName _).seq fun _ _ request =>
    (takes_expect _ (by decide)).seq fun v₃ _ _ =>
    (takes_expectWord _ _).seq fun v₄ _ _ =>
    (takes_expect _ (by decide)).seq fun v₅ _ _ =>
    takes_stream.seq fun v₆ _ _ =>
    (takes_qualifiedName _).seq fun _ _ response =>
    (takes_expect _ (by decide)).seq fun v₇ _ _ ho r goes =>
    .read (run_check .leftBrace r) ?_
  have draft := ((Draft.start (u := [o.current])).name name).pass v₁ |>.pass v₂ |>.name request
    |>.pass v₃ |>.pass v₄ |>.pass v₅ |>.pass v₆ |>.name response |>.pass v₇
  split_ifs with left
  · exact .enclosed ho goes (of_decide_eq_true left) (run_advance r)
      (tracedBody_body below _ statement_rpcMember) draft fun _ _ => ⟨rfl, rfl, rfl, rfl, rfl⟩
  · exact Follows.ended draft (fun _ => ⟨rfl, rfl, rfl, rfl⟩) ho r goes

theorem statement_serviceMember (below : limit ≤ maxNesting) :
    Statement limit d (NodeKind.inside .service) serviceMember ServiceMember.node :=
  .orSemicolon fun o depth => .current <|
    .ite (.declared (.member .option) declares_optionStatement depth (fun _ => rfl) (by decide)) <|
    .ite (.declared .rpc (declares_rpc below) depth (fun _ => rfl) (by decide)) (.reject (by simp))

theorem declares_service (below : limit ≤ maxNesting) :
    Declares limit d service fun s => .service s :=
  declares_block (fun _ => tracedBody_body below _ (statement_serviceMember below))
    fun _ _ _ => ⟨rfl, rfl, rfl, rfl, rfl⟩

/-! ### Messages and the bodies inside them -/

end Rule

/-- The kinds of nodes that can stand in a body. -/
def BodyKind.inside : BodyKind → List NodeKind
  | .message => NodeKind.inside (.member .message)
  | .oneof => NodeKind.inside (.member .oneof)
  | .extend => NodeKind.inside (.member .extend)

namespace Rule

variable {limit d : Nat}

/-- The bodies inside are read, where `d` bodies are open. -/
def TracesBodies (limit d : Nat) (inner : BodyRule) : Prop :=
  ∀ kind block, TracedBody limit d kind.inside (inner kind block) Node.member

section Blocks

variable {inner : BodyRule} {kinds : List NodeKind}

theorem declares_message (h : TracesBodies limit d inner) :
    Declares limit d (message inner) fun m => .member (.message m.head m.body) :=
  declares_block (fun _ => h _ _) fun _ _ _ => ⟨rfl, rfl, rfl, rfl, rfl⟩

theorem declares_oneof (h : TracesBodies limit d inner) :
    Declares limit d (oneof inner) fun o => .member (.oneof o.head o.body) :=
  declares_block (fun _ => h _ _) fun _ _ _ => ⟨rfl, rfl, rfl, rfl, rfl⟩

theorem declares_extend (h : TracesBodies limit d inner) :
    Declares limit d (extend inner) fun e => .member (.extend e.head e.body) := by
  rintro o rfl
  exact (takes_keyword _).first fun _ =>
    .claim (List.cons_ne_nil _ _) fun _ =>
    (takes_qualifiedName _).seq fun _ _ target =>
    .enclosed (h _ _) (Draft.start.name target) fun _ _ => ⟨rfl, rfl, rfl, rfl, rfl⟩

theorem declares_group (h : TracesBodies limit d inner) :
    Declares limit d (group inner) fun g => .member (.group g.head g.body) := by
  rintro o rfl
  exact .current <| follows_passLabel id fun _ =>
    (takes_keyword _).seq fun _ _ one =>
    .claim (by simp [one.only]) fun _ =>
    (takes_simpleName _).seq fun _ _ name =>
    .numbered (Draft.start.name name) fun _ _ _ draft =>
    .enclosed (h _ _) draft fun _ _ => ⟨rfl, rfl, rfl, rfl, rfl⟩

theorem states_fieldMember (mem : .member .field ∈ kinds) :
    States limit d kinds fieldMember Node.member :=
  fun _ depth => .declared (.member .field) declares_field depth (fun _ => rfl) mem

theorem states_optionMember (mem : .member .option ∈ kinds) :
    States limit d kinds optionMember Node.member :=
  fun _ depth => .declared (.member .option) declares_optionStatement depth (fun _ => rfl) mem

theorem states_groupMember (h : TracesBodies limit d inner) (mem : .member .group ∈ kinds) :
    States limit d kinds (groupMember inner) Node.member :=
  fun _ depth => .declared (.member .group) (declares_group h) depth (fun _ => rfl) mem

theorem states_extendMember (h : TracesBodies limit d inner) (mem : .member .extend ∈ kinds) :
    States limit d kinds (extendMember inner) Node.member :=
  fun _ depth => .declared (.member .extend) (declares_extend h) depth (fun _ => rfl) mem

theorem states_nestedMessage (h : TracesBodies limit d inner) (mem : .member .message ∈ kinds) :
    States limit d kinds (nestedMessage inner) Node.member :=
  fun _ depth => .declared (.member .message) (declares_message h) depth (fun _ => rfl) mem

theorem states_namedMember (below : limit ≤ maxNesting) (h : TracesBodies limit d inner) :
    States limit d BodyKind.message.inside (namedMember inner) Node.member :=
  fun o depth => .current <|
  .ite (states_optionMember (by decide) o depth) <|
  .ite (.declared (.member .reserved) (declares_reserved _) depth (fun _ => rfl) (by decide)) <|
  .ite (.declared (.member .extensions) declares_extensions depth (fun _ => rfl) (by decide)) <|
  .look (looks_startsBlock _) fun _ =>
  .ite (states_nestedMessage h (by decide) o depth) <|
  .look (looks_startsBlock _) fun _ =>
  .ite (.declared (.member .enum) (declares_enum below) depth (fun _ => rfl) (by decide)) <|
  .look (looks_startsBlock _) fun _ =>
  .ite (.declared (.member .oneof) (declares_oneof h) depth (fun _ => rfl) (by decide)) <|
  .look (looks_startsBlock _) fun _ =>
  .ite (states_extendMember h (by decide) o depth) <|
  .look (looks_peek 1) fun _ =>
  .ite (.declared (.member .map) declares_mapField depth (fun _ => rfl) (by decide)) <|
  .look looks_startsGroup fun _ =>
  .ite (states_groupMember h (by decide) o depth) (states_fieldMember (by decide) o depth)

theorem statement_messageMember (below : limit ≤ maxNesting) (h : TracesBodies limit d inner) :
    Statement limit d BodyKind.message.inside (messageMember inner) Node.member where
  empty := fun r semicolon => by
    rw [messageMember, run_bind_ok (run_current r), semicolon]
    rfl
  full := fun r hr depth other => by
    refine .read (run_current r) ?_
    split
    · next semicolon => exact absurd semicolon other
    · exact (states_namedMember below h).at hr depth
    · exact (states_namedMember below h).at hr depth
    · exact Follows.reject (by simp) hr r (.refl r)

theorem statement_oneofMember (h : TracesBodies limit d inner) :
    Statement limit d BodyKind.oneof.inside (oneofMember inner) Node.member :=
  .orSemicolon fun o depth => .look (looks_checkWord _) fun _ =>
    .ite (states_optionMember (by decide) o depth) <|
    .look (looks_startsGroupAt 0) fun _ =>
    .ite (states_groupMember h (by decide) o depth) (states_fieldMember (by decide) o depth)

theorem statement_extensionMember (h : TracesBodies limit d inner) :
    Statement limit d BodyKind.extend.inside (extensionMember inner) Node.member :=
  .orSemicolon fun o depth => .look looks_startsGroup fun _ =>
    .ite (states_groupMember h (by decide) o depth) (states_fieldMember (by decide) o depth)

theorem statement_member (below : limit ≤ maxNesting) (h : TracesBodies limit d inner)
    (kind : BodyKind) : Statement limit d kind.inside (member inner kind) Node.member := by
  cases kind with
  | message => exact statement_messageMember below h
  | oneof => exact statement_oneofMember h
  | extend => exact statement_extensionMember h

end Blocks

/-- **Bodies are read member by member**, however deep they nest.  None is too deep before
the limit, if as many rounds of the recursion are left as bodies may still be opened. -/
theorem tracesBodies_memberBodyUpTo (below : limit ≤ maxNesting) (fuel : Nat)
    (enough : limit ≤ fuel + d) : TracesBodies limit d (memberBodyUpTo fuel) := by
  induction fuel generalizing d with
  | zero => exact fun _ block => tracedBody_tooDeep block (by omega)
  | succ fuel ih =>
    exact fun kind block => tracedBody_body below block
      (statement_member below (ih (by omega)) kind)

theorem tracesBodies_memberBody (below : limit ≤ maxNesting) :
    TracesBodies limit d memberBody :=
  tracesBodies_memberBodyUpTo below maxNesting (Nat.le_trans below (Nat.le_add_right _ _))

/-! ### Files -/

theorem declares_syntaxLevel : Declares limit d syntaxLevel Node.syntaxLevel :=
  declares_level fun _ _ => ⟨rfl, rfl, rfl, rfl⟩

theorem declares_edition : Declares limit d edition Node.edition :=
  declares_level fun _ _ => ⟨rfl, rfl, rfl, rfl⟩

theorem declares_package : Declares limit d package Node.package :=
  fun _ _ => (takes_keyword _).first fun _ =>
  .claim (List.cons_ne_nil _ _) fun _ =>
  (takes_qualifiedName _).seq fun _ _ name =>
  .ended (Draft.start.name name) fun _ => ⟨rfl, rfl, rfl, rfl⟩

theorem declares_importing : Declares limit d importing Node.importing :=
  fun _ _ => (takes_keyword _).first fun _ =>
  .claim (List.cons_ne_nil _ _) fun _ =>
  takes_importModifier.seq fun _ _ _ =>
  (takes_expect _ (by decide)).seq fun _ path one => by
    have spelled : Spelled [path] (.other, ⟨Literal.stringValue path.text, path.span⟩) :=
      ⟨[path], List.infix_rfl, Token.covers_singleton path, trivial⟩
    rw [one.only]
    exact .ended (Draft.start.name spelled) fun _ => ⟨rfl, rfl, rfl, rfl⟩

/-- The kinds of nodes that can stand at the top of a file. -/
def topKinds : List NodeKind :=
  [.syntaxLevel, .edition, .package, .importing, .service, .member .message, .member .enum,
    .member .extend, .member .option]

section Items

variable {kinds : List NodeKind}

theorem Follows.once {o : Reader} (what : SingleDeclaration) (earlier : List Item) {α : Type}
    {x : Rule α} {g : α → Item} (kind : NodeKind) (h : Declares limit d x fun a => (g a).node)
    (depth : o.depth = d) (same : ∀ a, (g a).node.kind = kind) (mem : kind ∈ kinds) :
    Follows o [] [] (Rule.once what earlier (do return g (← x))) fun s c =>
      ∃ a, c = some a ∧ a.node.kind ∈ kinds ∧ o.Declared limit a.node s :=
  .ite (.reject (by simp)) <| by
    rw [bind_assoc]
    exact .declared kind h depth same mem

theorem states_memberItem {rule : Rule (Option Member)}
    (h : States limit d kinds rule Node.member) :
    States limit d kinds (memberItem rule) Item.node := by
  intro o depth ho r goes
  refine (h o depth ho r goes).bind ?_
  rintro _ s ⟨m, rfl, kind, declared⟩
  exact .of_ok rfl ⟨.member m, rfl, kind, declared⟩

theorem states_namedItem (below : limit ≤ maxNesting) (earlier : List Item) :
    States limit d topKinds (namedItem earlier) Item.node :=
  fun o depth => .current <|
  .ite (.once _ _ .syntaxLevel declares_syntaxLevel depth (fun _ => rfl) (by decide)) <|
  .ite (.once _ _ .edition declares_edition depth (fun _ => rfl) (by decide)) <|
  .ite (.once _ _ .package declares_package depth (fun _ => rfl) (by decide)) <|
  .ite (.declared .importing declares_importing depth (fun _ => rfl) (by decide)) <|
  .ite (states_memberItem (states_optionMember (by decide)) o depth) <|
  .ite (states_memberItem
    (states_nestedMessage (tracesBodies_memberBody below) (by decide)) o depth) <|
  .ite (.declared (.member .enum) (declares_enum below) depth (fun _ => rfl) (by decide)) <|
  .ite (.declared .service (declares_service below) depth (fun _ => rfl) (by decide)) <|
  .ite (states_memberItem
    (states_extendMember (tracesBodies_memberBody below) (by decide)) o depth) <|
  .reject (by simp)

theorem statement_item (below : limit ≤ maxNesting) (earlier : List Item) :
    Statement limit d topKinds (item earlier) Item.node where
  empty := fun r semicolon => by
    rw [item, run_bind_ok (run_current r), semicolon]
    rfl
  full := fun r hr depth other => by
    refine .read (run_current r) ?_
    split
    · next semicolon => exact absurd semicolon other
    · exact (states_namedItem below earlier).at hr depth
    · exact Follows.reject (by simp) hr r (.refl r)

end Items
end Rule

/-- **A text is read to its end**, and the nodes of what is read lie on all its tokens. -/
theorem SchemaFile.exists_run (uri source : Text) :
    ∃ items last, Rule.items (Reader.ofStream (TokenStream.ofText source)) = .ok items last ∧
      parse uri source = ⟨uri, Span.ofText source, items, last.faults.reverse⟩ ∧ last.rest = [] ∧
      (Reader.ofStream (TokenStream.ofText source)).Gives (Reader.FileRead maxNesting)
        Rule.topKinds (items.map Item.node) last := by
  obtain ⟨items, last, run, done, gives⟩ := Rule.gives_itemsUpTo
    (Rule.statement_item (Nat.le_refl _)) _ [] (Reader.lexed_ofStream source) rfl (Nat.le_refl _)
  have result : Rule.items.run (Reader.ofStream (TokenStream.ofText source)) = .ok items last := run
  exact ⟨items, last, run, by simp only [parse, result], done, gives⟩

/-- **What reading a file amounts to**: its nodes lie on all tokens of the text, and its
faults are those of the reading. -/
theorem SchemaFile.exists_gives (uri source : Text) :
    ∃ last, (Reader.ofStream (TokenStream.ofText source)).Gives (Reader.FileRead maxNesting)
        Rule.topKinds (parse uri source).children last ∧
      last.rest = [] ∧ (parse uri source).faults = last.faults.reverse := by
  obtain ⟨items, last, -, file, done, gives⟩ := exists_run uri source
  refine ⟨last, ?_, done, by rw [file]⟩
  rw [file]
  exact gives

/-- The kinds of members that can stand at the top of a file. -/
def Member.topKinds : List MemberKind := [.message, .enum, .extend, .option]

namespace SchemaFile

variable {uri source : Text}

/-- **The nodes of a file are a row on its tokens.** -/
theorem row_children (uri source : Text) :
    Row Laid (TokenStream.ofText source).tokens (parse uri source).children := by
  obtain ⟨last, gives, ended, -⟩ := exists_gives uri source
  obtain ⟨w, spends, row⟩ := gives.lays
  have all : (TokenStream.ofText source).tokens = w ++ last.rest := spends.passes.rest
  rwa [all, ended, List.append_nil]

/-- **Every node of a file lies on a stretch of its tokens.** -/
theorem HasNode.exists_laid {n : Node} (h : (parse uri source).HasNode n) :
    ∃ w, w <:+: (TokenStream.ofText source).tokens ∧ Laid w n := by
  induction h with
  | top mem => exact (row_children uri source).of_mem mem
  | inside _ mem ih =>
    obtain ⟨w, sub, laid⟩ := ih
    obtain ⟨v, sub', inner⟩ := laid.inner.of_mem mem
    exact ⟨v, sub'.trans sub, inner⟩

/-- **The nodes of a file fit into the limit**, and their members have kinds that can stand
there. -/
theorem HasNode.fits_parse {n : Node} (h : (parse uri source).HasNode n) : n.Fits maxNesting := by
  obtain ⟨last, gives, -⟩ := exists_gives uri source
  exact h.fits fun n hn => (gives.fits n hn).2

/-- **Only messages, enums, extend blocks and options are members of a file.** -/
theorem kind_of_mem_members {m : Member} (h : m ∈ (parse uri source).members) :
    m.kind ∈ Member.topKinds := by
  obtain ⟨last, gives, -⟩ := exists_gives uri source
  obtain ⟨i, hi, found⟩ := List.mem_filterMap.1 h
  cases i with
  | member m' =>
    cases found
    have top : NodeKind.member m.kind ∈ Rule.topKinds :=
      (gives.fits _ (List.mem_map_of_mem hi)).1
    revert top
    cases m.kind <;> decide
  | _ => cases found

end SchemaFile
end ProtoAtlas
