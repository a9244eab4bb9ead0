/-
# Printed files are read back

A file that is printed and parsed comes back without a fault and with the same
declarations, up to places.  A declaration at the top of a file is told by its first
word alone; `syntax`, `edition` and `package` may stand once, so each of them is read
only if none stood before.

Two things cannot come back.  A member that opens more than `maxNesting` bodies inside
each other is passed over, and a group right inside a oneof is found only without a
label.  Both are shown here at a file that has nothing else in it.
-/

import ProtoAtlas.Proofs.Grammar.Members

namespace ProtoAtlas

open Lexeme (ahead word mark pieces)

namespace Rule

/-! ### Declarations of a file -/

/-- A declaration was read that is `i` up to places. -/
def ItemReadAs (i : Item) (o : Option Item) : Prop :=
  ∃ a, o = some a ∧ a.unplaced = i.bare

/-- A keyword, `=` and a text in quotes. -/
theorem reads_level {β : Type} (keyword text what what' what'' : Text)
    {mk : Text → NodeInfo → β} {Q : β → Prop} {rest : List Lexeme}
    (done : ∀ info, info.unplaced = NodeInfo.blank → Q (mk text info)) :
    Reads 0 (do
        let first ← Rule.keyword keyword
        let comment ← claimComment first
        let _ ← expect .equals what
        let value ← expect .string what'
        let _ ← expect .semicolon what''
        return mk (Literal.stringValue value.text) (← close first comment none))
      (word keyword :: mark .equals :: Lexeme.string text :: mark .semicolon :: rest) rest Q := by
  refine reads_opening keyword fun first => ?_
  refine (reads_expect what rfl).bind fun _ _ => ?_
  refine (reads_expect what' rfl).bind fun value hvalue => ?_
  have quoted : value.text = Literal.quote text := hvalue.text
  rw [quoted, Literal.stringValue_quote]
  exact reads_ended what'' done

theorem reads_syntaxLevel {d : SyntaxDecl} {rest : List Lexeme} :
    Reads 0 syntaxLevel ((Item.syntaxLevel d).printed ++ rest) rest
      fun a => (Item.syntaxLevel a).unplaced = (Item.syntaxLevel d).bare := by
  refine reads_level "syntax" d.version _ _ _ fun info hinfo => ?_
  simp only [Item.unplaced, Item.bare, Item.reset, hinfo, NodeInfo.bare]

theorem reads_edition {d : EditionDecl} {rest : List Lexeme} :
    Reads 0 edition ((Item.edition d).printed ++ rest) rest
      fun a => (Item.edition a).unplaced = (Item.edition d).bare := by
  refine reads_level "edition" d.edition _ _ _ fun info hinfo => ?_
  simp only [Item.unplaced, Item.bare, Item.reset, hinfo, NodeInfo.bare]

/-- A package name is a path without a dot in front. -/
theorem reads_package {d : PackageDecl} (ok : d.name.text.IsPath fun _ => True)
    {rest : List Lexeme} :
    Reads 0 package ((Item.package d).printed ++ rest) rest
      fun a => (Item.package a).unplaced = (Item.package d).bare := by
  rw [Item.printed]
  simp only [List.append_assoc, List.cons_append, List.nil_append]
  refine reads_opening "package" fun first => ?_
  refine (reads_qualifiedName (.inl ok) _ TokenKind.noConfusion).bind fun name hname => ?_
  refine reads_ended _ fun info hinfo => ?_
  simp only [Item.unplaced, Item.bare, Item.reset, Name.unplaced_eq hname, hinfo, NodeInfo.bare]

/-- The words behind `import` are told from its path by their kind. -/
theorem reads_importModifier (modifier : Option ImportModifier) (path : Text)
    {rest : List Lexeme} :
    Reads 0 importModifier
      ((modifier.toList.map fun m => word m.word) ++ Lexeme.string path :: rest)
      (Lexeme.string path :: rest) (· = modifier) := by
  cases modifier with
  | none =>
    refine (reads_checkWord_other rfl).after (Reads.ite_neg Bool.false_ne_true ?_)
    exact (reads_checkWord_other rfl).after (Reads.ite_neg Bool.false_ne_true (Reads.pure rfl))
  | some modifier =>
    cases modifier with
    | reexport =>
      refine (reads_checkWord_same ImportModifier.reexport.word).after (Reads.ite_pos rfl ?_)
      exact reads_advance.bind fun _ _ => Reads.pure rfl
    | weak =>
      refine (reads_checkWord_other rfl).after (Reads.ite_neg Bool.false_ne_true ?_)
      refine (reads_checkWord_same ImportModifier.weak.word).after (Reads.ite_pos rfl ?_)
      exact reads_advance.bind fun _ _ => Reads.pure rfl

theorem reads_importing {d : ImportDecl} {rest : List Lexeme} :
    Reads 0 importing ((Item.importing d).printed ++ rest) rest
      fun a => (Item.importing a).unplaced = (Item.importing d).bare := by
  rw [Item.printed]
  simp only [List.append_assoc, List.cons_append, List.nil_append]
  refine reads_opening "import" fun first => ?_
  refine (reads_importModifier d.modifier d.path.text).bind ?_
  rintro _ rfl
  refine (reads_expect _ rfl).bind fun path hpath => ?_
  have quoted : path.text = Literal.quote d.path.text := hpath.text
  rw [quoted, Literal.stringValue_quote]
  refine reads_ended _ fun info hinfo => ?_
  simp only [Item.unplaced, Item.bare, Item.reset, Name.unplaced, hinfo, NodeInfo.bare]

/-- A declaration that may stand once is read where none stood before. -/
theorem reads_once {what : SingleDeclaration} {earlier : List Item} {rule : Rule Item} {i : Item}
    {A B : List Lexeme} (fresh : declares what earlier = false)
    (h : Reads 0 rule A B fun a => a.unplaced = i.bare) :
    Reads 0 (once what earlier rule) A B (ItemReadAs i) := by
  refine Reads.ite_neg ?_ (h.bind fun a ha => Reads.pure ⟨a, rfl, ha⟩)
  rw [fresh]
  exact Bool.false_ne_true

/-- A member at the top of a file. -/
theorem reads_memberItem {rule : Rule (Option Member)} {m : Member} {A B : List Lexeme}
    (h : Reads 0 rule A B (ReadAs m)) : Reads 0 (memberItem rule) A B (ItemReadAs (.member m)) := by
  refine h.bind ?_
  rintro _ ⟨a, rfl, ha⟩
  exact Reads.pure ⟨.member a, rfl, congrArg Item.member ha⟩

/-- **A declaration of a file is told by its first word and read back**, one that may
stand once only if none stood before. -/
theorem reads_namedItem {i : Item} (ok : i.WellFormed)
    (shallow : ∀ m, i = .member m → m.depth ≤ maxNesting)
    (plain : ∀ m, i = .member m → m.choicesUnlabelled = true) {earlier : List Item}
    (fresh : ∀ what ∈ i.single?, declares what earlier = false) {rest : List Lexeme} :
    Reads 0 (namedItem earlier) (i.printed ++ rest) rest (ItemReadAs i) := by
  refine reads_current.bind fun token htoken => ?_
  simp only [htoken.isWord]
  cases i with
  | syntaxLevel d =>
    refine reads_once (fresh .syntaxLevel rfl) ?_
    exact reads_syntaxLevel.bind fun _ h => Reads.pure h
  | edition d =>
    refine reads_once (fresh .edition rfl) ?_
    exact reads_edition.bind fun _ h => Reads.pure h
  | package d =>
    refine reads_once (fresh .package rfl) ?_
    exact (reads_package ok).bind fun _ h => Reads.pure h
  | importing d => exact reads_importing.bind fun a h => Reads.pure ⟨.importing a, rfl, h⟩
  | service d =>
    have room : 0 + 1 < maxNesting := by decide
    exact (reads_service ok room).bind fun a h =>
      Reads.pure ⟨.service a, rfl, congrArg Item.service h⟩
  | member m =>
    have shallow := shallow m rfl
    have room : 0 + m.depth ≤ maxNesting := (Nat.zero_add _).trans_le shallow
    have plain := plain m rfl
    obtain ⟨stands, ok⟩ := ok
    cases ok with
    | message name inner =>
      have each : ∀ m ∈ _, ReadBack .message m := fun m hm => readBack_of_wellFormed (inner m hm)
      exact reads_memberItem (Reads.asMember
        (reads_message (readsBody_memberBodyUpTo inner each shallow room plain (by simp))))
    | enum ok =>
      exact (reads_enum ok (by decide)).bind fun a h =>
        Reads.pure ⟨.member (.enum a), rfl, congrArg (fun e => Item.member (.enum e)) h⟩
    | extend target inner =>
      have each : ∀ m ∈ _, ReadBack .extend m := fun m hm => readBack_of_wellFormed (inner m hm)
      exact reads_memberItem (Reads.asMember
        (reads_extend target (readsBody_memberBodyUpTo inner each shallow room plain (by simp))))
    | option place ok =>
      exact reads_memberItem (Reads.asMember
        ((reads_optionStatement ok).imp fun _ h => congrArg Member.option h))
    | _ => cases stands

/-- A declaration of a file starts with a word. -/
theorem printed_item_cons {i : Item} (ok : i.WellFormed) : ∃ w ls, i.printed = word w :: ls := by
  cases i with
  | member m =>
    obtain ⟨stands, ok⟩ := ok
    cases ok with
    | message | enum | extend | option => exact ⟨_, _, rfl⟩
    | _ => cases stands
  | _ => exact ⟨_, _, rfl⟩

/-- Nothing is recovered from where nothing is faulty. -/
theorem reads_itemStep {i : Item} (ok : i.WellFormed)
    (shallow : ∀ m, i = .member m → m.depth ≤ maxNesting)
    (plain : ∀ m, i = .member m → m.choicesUnlabelled = true) {earlier : List Item}
    (fresh : ∀ what ∈ i.single?, declares what earlier = false) {rest : List Lexeme} :
    Reads 0 (itemStep earlier) (i.printed ++ rest) rest (ItemReadAs i) := by
  have read : Reads 0 (item earlier) (i.printed ++ rest) rest (ItemReadAs i) := by
    obtain ⟨w, ls, written⟩ := printed_item_cons ok
    refine reads_current.bind fun token htoken => ?_
    have kind : token.kind = .identifier := by
      rw [htoken.kind, written]
      rfl
    rw [kind]
    exact reads_namedItem ok shallow plain fresh
  intro r hr hA
  obtain ⟨o, s, run, kept⟩ := read r hr hA
  exact ⟨o, s, run_recovering_ok run _, kept⟩

/-! ### Files -/

/-- A declaration that was read counts as what it was printed from. -/
theorem declares_read {a i : Item} (read : a.unplaced = i.bare) (what : SingleDeclaration)
    (earlier : List Item) :
    declares what (a :: earlier) = (decide (i.single? = some what) || declares what earlier) := by
  have kept : ∀ (f : NodeInfo → NodeInfo) (i : Item), (i.reset f).single? = i.single? := by
    intro f i
    cases i <;> rfl
  have same : a.single? = i.single? := by
    rw [← kept NodeInfo.unplaced a, ← kept NodeInfo.bare i]
    exact congrArg Item.single? read
  rw [← same, declares, List.any_cons]
  cases a <;> cases what <;> rfl

theorem reads_get {A : List Lexeme} : Reads 0 get A A (fun r => r.lexemes = A) :=
  fun r hr hA => ⟨r, r, rfl, hr, hA, rfl, hA⟩

theorem atEnd_eq (r : Reader) : r.atEnd = r.lexemes.isEmpty := by
  rw [Reader.atEnd, Reader.lexemes, List.isEmpty_map]

/-- The statements of a file, behind some that were read. -/
theorem reads_itemsUpTo {items : List Item} (each : ∀ i ∈ items, i.WellFormed)
    (single : (items.filterMap Item.single?).Nodup)
    (shallow : ∀ m, .member m ∈ items → m.depth ≤ maxNesting)
    (plain : ∀ m, .member m ∈ items → m.choicesUnlabelled = true) {earlier : List Item}
    (fresh : ∀ what ∈ items.filterMap Item.single?, declares what earlier = false) {fuel : Nat}
    (enough : items.length ≤ fuel) :
    Reads 0 (itemsUpTo fuel earlier) (items.flatMap Item.printed) [] fun as =>
      as.map Item.unplaced = earlier.reverse.map Item.unplaced ++ items.map Item.bare := by
  -- What was read is in `earlier`, the latest first; it only matters for `declares`.
  induction items generalizing earlier fuel with
  | nil =>
    have done : Reads 0 (pure earlier.reverse : Rule (List Item)) [] [] fun as =>
        as.map Item.unplaced = earlier.reverse.map Item.unplaced ++ [] :=
      Reads.pure (List.append_nil _).symm
    cases fuel with
    | zero => exact done
    | succ fuel =>
      refine reads_get.bind fun r hr => Reads.ite_pos ?_ done
      rw [atEnd_eq, hr]
      rfl
  | cons i items ih =>
    obtain ⟨fuel, rfl⟩ := Nat.exists_eq_add_of_le' (Nat.le_trans (Nat.le_add_left 1 _) enough)
    have split : (i :: items).filterMap Item.single? =
        i.single?.toList ++ items.filterMap Item.single? := by
      rw [List.filterMap_cons]
      cases i.single? <;> rfl
    rw [split] at single fresh
    obtain ⟨-, single, apart⟩ := List.nodup_append.1 single
    have behind : ∀ m, .member m ∈ items → .member m ∈ i :: items :=
      fun _ => List.mem_cons_of_mem i
    obtain ⟨w, ls, written⟩ := printed_item_cons (each i List.mem_cons_self)
    rw [List.flatMap_cons]
    refine reads_get.bind fun r hr => Reads.ite_neg ?_ ?_
    · rw [atEnd_eq, hr, written]
      exact Bool.false_ne_true
    refine (reads_itemStep (each i List.mem_cons_self)
      (fun m here => shallow m (here ▸ List.mem_cons_self))
      (fun m here => plain m (here ▸ List.mem_cons_self))
      (fun what here => fresh what (List.mem_append_left _ (Option.mem_toList.2 here)))).bind ?_
    rintro _ ⟨a, rfl, ha⟩
    have fresh : ∀ what ∈ items.filterMap Item.single?, declares what (a :: earlier) = false := by
      intro what later
      rw [declares_read ha, fresh what (List.mem_append_right _ later), Bool.or_false,
        decide_eq_false_iff_not]
      intro here
      exact apart what (Option.mem_toList.2 here) what later rfl
    refine (ih (fun j hj => each j (List.mem_cons_of_mem i hj)) single
      (fun m hm => shallow m (behind m hm)) (fun m hm => plain m (behind m hm)) fresh
      (Nat.le_of_succ_le_succ enough)).imp fun as has => ?_
    rw [has, List.reverse_cons, List.map_append, List.append_assoc, List.map_singleton, ha,
      List.singleton_append, List.map_cons]

/-- **The statements of a file are read back.** -/
theorem reads_items {items : List Item} (file : Item.WellFormedFile items)
    (shallow : ∀ m, .member m ∈ items → m.depth ≤ maxNesting)
    (plain : ∀ m, .member m ∈ items → m.choicesUnlabelled = true) :
    Reads 0 Rule.items (items.flatMap Item.printed) [] fun as =>
      as.map Item.unplaced = items.map Item.bare := by
  refine reads_get.bind fun r hr => ?_
  have nonempty : ∀ i ∈ items, i.printed ≠ [] := by
    intro i hi
    obtain ⟨w, ls, written⟩ := printed_item_cons (file.each i hi)
    rw [written]
    exact List.cons_ne_nil _ _
  have enough : items.length ≤ r.rest.length := by
    have total : r.rest.length = (items.flatMap Item.printed).length := by
      rw [← hr, Reader.lexemes, List.length_map]
    rw [total]
    exact length_le_length_flatMap nonempty
  exact reads_itemsUpTo file.each file.single shallow plain (fun _ _ => rfl) enough

end Rule

/-- The reader in front of a spaced text stands in front of its lexemes. -/
theorem Reader.bare_ofStream {ls : List Lexeme} (h : ∀ l ∈ ls, l.Separable) :
    (ofStream (TokenStream.ofText (Lexeme.spaced ls))).Bare 0 ∧
      (ofStream (TokenStream.ofText (Lexeme.spaced ls))).lexemes = ls := by
  obtain ⟨tokens, finish⟩ := TokenStream.bare_spaced h
  exact ⟨⟨tokens, List.forall_mem_nil _, finish, rfl, rfl, rfl⟩, TokenStream.lexemes_spaced h⟩

/-- **A printed file is read back**: parsing finds no fault and the same declarations,
up to places, if no member opens more than `maxNesting` bodies inside each other and
no group right inside a oneof has a label. -/
theorem printed_file_is_read_back (uri : Text) {items : List Item}
    (file : Item.WellFormedFile items)
    (shallow : ∀ m, .member m ∈ items → m.depth ≤ maxNesting)
    (plain : ∀ m, .member m ∈ items → m.choicesUnlabelled = true) :
    (SchemaFile.parse uri (Item.textOf items)).faults = [] ∧
      (SchemaFile.parse uri (Item.textOf items)).items.map Item.unplaced =
        items.map Item.bare := by
  have separable : ∀ l ∈ items.flatMap Item.printed, l.Separable := by
    intro l hl
    obtain ⟨i, hi, mem⟩ := List.mem_flatMap.1 hl
    exact (file.each i hi).separable l mem
  obtain ⟨bare, lexemes⟩ := Reader.bare_ofStream separable
  obtain ⟨as, r, run, -, -, faults, same⟩ := Rule.reads_items file shallow plain _ bare lexemes
  have parsed : SchemaFile.parse uri (Item.textOf items) =
      ⟨uri, Span.ofText (Item.textOf items), as, r.faults.reverse⟩ := by
    rw [SchemaFile.parse, EStateM.run, Item.textOf, run]
  rw [parsed]
  refine ⟨?_, same⟩
  rw [faults]
  rfl

/-- A file whose names are all keywords:
`syntax = "proto2"; message message { repeated .group optional = 1 [option = "reserved"];
oneof oneof { group group = -1 { } } }`. -/
def keywordFile : List Item :=
  [.syntaxLevel ⟨"proto2", NodeInfo.blank⟩,
    .member (.message ⟨⟨"message", Span.empty⟩, NodeInfo.blank⟩
      [.field ⟨⟨"optional", Span.empty⟩, ⟨".group", Span.empty⟩, 1, some .repeated,
          [⟨⟨"option", Span.empty⟩, .text "reserved", NodeInfo.blank⟩], NodeInfo.blank⟩,
        .oneof ⟨⟨"oneof", Span.empty⟩, NodeInfo.blank⟩
          [.group ⟨⟨"group", Span.empty⟩, -1, none, [], NodeInfo.blank⟩ []]])]

theorem wellFormedFile_keywordFile : Item.WellFormedFile keywordFile := by
  have type : Text.IsType ".group" :=
    .inr ⟨"group", ⟨"group", [], trivial, by decide, by decide⟩, by decide⟩
  have option : Text.IsOptionName "option" :=
    ⟨"option", [], List.forall_mem_singleton.2 (.inl (by decide)), by decide⟩
  refine ⟨List.forall_mem_cons.2 ⟨trivial, List.forall_mem_singleton.2
    ⟨rfl, .message (by decide) (List.forall_mem_cons.2 ⟨?field, ?oneof⟩)⟩⟩, by decide⟩
  case field => exact .field ⟨type, by decide, List.forall_mem_singleton.2 ⟨option, trivial⟩⟩
  case oneof =>
    have group : ∀ o ∈ ([] : List OptionDecl), o.WellFormed := List.forall_mem_nil _
    exact List.forall_mem_singleton.2 (.oneof (by decide) (List.forall_mem_singleton.2
      (.group ⟨by decide, group⟩ (List.forall_mem_nil _))))

/-- Keywords as names come back as names. -/
theorem keywordFile_is_read_back :
    Item.WellFormedFile keywordFile ∧
      (SchemaFile.parse [] (Item.textOf keywordFile)).faults = [] ∧
      (SchemaFile.parse [] (Item.textOf keywordFile)).items.map Item.unplaced =
        keywordFile.map Item.bare := by
  refine ⟨wellFormedFile_keywordFile,
    printed_file_is_read_back [] wellFormedFile_keywordFile ?_ ?_⟩
  · intro m hm
    obtain rfl : m = _ := by simpa [keywordFile] using hm
    decide
  · intro m hm
    obtain rfl : m = _ := by simpa [keywordFile] using hm
    decide

/-! ### Files that do not come back -/

/-- A group with a label right inside a oneof:
`message M { oneof o { optional group G = 1 { } } }`. -/
def labelledChoice : List Item :=
  [.member (.message ⟨⟨"M", Span.empty⟩, NodeInfo.blank⟩
    [.oneof ⟨⟨"o", Span.empty⟩, NodeInfo.blank⟩
      [.group ⟨⟨"G", Span.empty⟩, 1, some .optional, [], NodeInfo.blank⟩ []]])]

/-- A message with a number of messages inside each other in its body. -/
def nestedMessages : Nat → Member
  | 0 => .message ⟨⟨"M", Span.empty⟩, NodeInfo.blank⟩ []
  | n + 1 => .message ⟨⟨"M", Span.empty⟩, NodeInfo.blank⟩ [nestedMessages n]

theorem wellFormedFile_labelledChoice : Item.WellFormedFile labelledChoice := by
  have options : ∀ o ∈ ([] : List OptionDecl), o.WellFormed := List.forall_mem_nil _
  refine ⟨List.forall_mem_singleton.2 ⟨rfl, .message (by decide) ?_⟩, by decide⟩
  refine List.forall_mem_singleton.2 (.oneof (by decide) ?_)
  exact List.forall_mem_singleton.2 (.group ⟨by decide, options⟩ (List.forall_mem_nil _))

theorem wellFormedFile_nestedMessages (n : Nat) :
    Item.WellFormedFile [.member (nestedMessages n)] := by
  have inner : (nestedMessages n).WellFormed .message := by
    induction n with
    | zero => exact .message (by decide) (List.forall_mem_nil _)
    | succ n ih => exact .message (by decide) (List.forall_mem_singleton.2 ih)
  have stands : (nestedMessages n).standsInFile = true := by
    cases n <;> rfl
  exact ⟨List.forall_mem_singleton.2 ⟨stands, inner⟩, List.nodup_nil⟩

/-- **Neither limit can be dropped**: a label on a group in a oneof is a fault, and so is
one body more than may be open. -/
theorem labelled_choice_and_deep_body_are_faults :
    (Item.WellFormedFile labelledChoice ∧
      (SchemaFile.parse [] (Item.textOf labelledChoice)).faults ≠ []) ∧
    (Item.WellFormedFile [.member (nestedMessages maxNesting)] ∧
      (SchemaFile.parse [] (Item.textOf [.member (nestedMessages maxNesting)])).faults ≠ []) :=
  ⟨⟨wellFormedFile_labelledChoice, by decide +kernel⟩,
    ⟨wellFormedFile_nestedMessages maxNesting, by decide +kernel⟩⟩

end ProtoAtlas
