/-
# Every text is a schema file

Reading a text always gives a file.  No rule of the grammar ends with a number
literal that has no answer, faults are all caught by the loops over statements and
members, and the bounds of the two loops are never what ends them: every round takes
a token, so a file is read to its end.
-/

import ProtoAtlas.Proofs.Grammar.Recovery

namespace ProtoAtlas

namespace Rule

/-- The rules of the grammar. -/
inductive Part : {α : Type} → Rule α → Prop
  | qualifiedName (what : Text) : Part (qualifiedName what)
  | simpleName (what : Text) : Part (simpleName what)
  | integer (what : Text) : Part (integer what)
  | optionNamePart : Part optionNamePart
  | optionName : Part optionName
  | aggregate : Part aggregate
  | optionValue : Part optionValue
  | optionStatement : Part optionStatement
  | bracketOption : Part bracketOption
  | brackets : Part brackets
  | optionalBrackets : Part optionalBrackets
  | field : Part field
  | mapField : Part mapField
  | numberRange (max : Int) : Part (numberRange max)
  | reservation (max : Int) : Part (reservation max)
  | reserved (max : Int) : Part (reserved max)
  | extensions : Part extensions
  | enumValue : Part enumValue
  | enum : Part enum
  | stream : Part stream
  | rpc : Part rpc
  | service : Part service
  | message (fuel : Nat) : Part (message (memberBodyUpTo fuel))
  | group (fuel : Nat) : Part (group (memberBodyUpTo fuel))
  | oneof (fuel : Nat) : Part (oneof (memberBodyUpTo fuel))
  | extend (fuel : Nat) : Part (extend (memberBodyUpTo fuel))
  | blockMember (fuel : Nat) (kind : BlockKind) : Part (blockMember fuel kind)
  | blockBody (fuel : Nat) (name : Text) (kind : BlockKind) :
      Part (blockBody fuel name kind)
  | syntaxLevel : Part syntaxLevel
  | edition : Part edition
  | package : Part package
  | importModifier : Part importModifier
  | importing : Part importing
  | item (earlier : List Item) : Part (item earlier)

/-- From a reader a rule ends with a result or a fault, and it does not go back. -/
def Proceeds {α : Type} (x : Rule α) (r : Reader) : Prop :=
  (∃ a s, x r = .ok a s ∧ r.position ≤ s.position) ∨
    ∃ f s, x r = .error (.fault f) s ∧ r.position ≤ s.position

/-- From a reader a rule ends with a result or a fault, and it has passed tokens. -/
def Passes {α : Type} (x : Rule α) (r : Reader) : Prop :=
  (∃ a s w, x r = .ok a s ∧ r.Passes w s) ∨ ∃ f s w, x r = .error (.fault f) s ∧ r.Passes w s

theorem RunsAt.passes {α : Type} {x : Rule α} {r : Reader} {A : Reader → α → Prop}
    (h : RunsAt r r x A) (hA : ∀ s a, A s a → ∃ w, r.Passes w s) : Rule.Passes x r := by
  cases run : x r with
  | ok a s =>
    obtain ⟨w, pass⟩ := hA s a (h.ok run)
    exact Or.inl ⟨a, s, w, run, pass⟩
  | error e s =>
    cases e with
    | fault f =>
      obtain ⟨w, pass, -⟩ := (h.fault run).way
      exact Or.inr ⟨f, s, w, run, pass⟩
    | literal e => exact absurd run h.literal

theorem Takes.passes {α : Type} {x : Rule α} {P : List Token → α → Prop} (h : Takes x P)
    {r : Reader} (hr : r.Lexed) : Rule.Passes x r :=
  (h.at hr).passes fun _ _ ⟨w, goes, _⟩ => ⟨w, goes.passes⟩

theorem Declares.passes {α : Type} {x : Rule α} {node : α → Node} {r : Reader}
    (h : Declares 0 r.depth x node) (hr : r.Lexed) : Rule.Passes x r :=
  RunsAt.passes (h r rfl hr r (.refl r)) fun _ _ declared => declared.lays.exists_passes

theorem Statement.passes {α : Type} {x : Rule (Option α)} {node : α → Node} {r : Reader}
    {kinds : List NodeKind} (h : Statement 0 r.depth kinds x node) (hr : r.Lexed) :
    Rule.Passes x r := by
  rcases h.cases hr rfl with ⟨o, s, run, gives⟩ | ⟨f, s, run, stumbles⟩
  · obtain ⟨w, pass⟩ := gives.lays.exists_passes
    exact Or.inl ⟨o, s, w, run, pass⟩
  · obtain ⟨w, pass, -⟩ := stumbles.way
    exact Or.inr ⟨f, s, w, run, pass⟩

theorem TracedBody.passes {α : Type} {x : Rule (List α)} {node : α → Node} {r : Reader}
    {kinds : List NodeKind} (h : TracedBody 0 r.depth kinds x node) (hr : r.Lexed) :
    Rule.Passes x r := by
  obtain ⟨as, s, run, filled⟩ := h r hr rfl
  obtain ⟨w, pass⟩ := filled.lays.exists_passes
  exact Or.inl ⟨as, s, w, run, pass⟩

/-- **Every rule passes tokens**, and none ends with a literal that has no answer. -/
theorem Part.passes {α : Type} {x : Rule α} (h : Part x) {r : Reader} (hr : r.Lexed) :
    Rule.Passes x r := by
  have below := Nat.zero_le maxNesting
  have bodies := fun fuel => tracesBodies_memberBodyUpTo (d := r.depth) below fuel (Nat.zero_le _)
  cases h with
  | qualifiedName what => exact (takes_qualifiedName what).passes hr
  | simpleName what => exact (takes_simpleName what).passes hr
  | integer what => exact (takes_integer what).passes hr
  | optionNamePart => exact takes_optionNamePart.passes hr
  | optionName => exact takes_optionName.passes hr
  | aggregate => exact takes_aggregate.passes hr
  | optionValue => exact takes_optionValue.passes hr
  | optionStatement => exact declares_optionStatement.passes hr
  | bracketOption => exact takes_bracketOption.passes hr
  | brackets => exact takes_brackets.passes hr
  | optionalBrackets => exact takes_optionalBrackets.passes hr
  | field => exact declares_field.passes hr
  | mapField => exact declares_mapField.passes hr
  | numberRange max => exact (takes_numberRange max).passes hr
  | reservation max => exact (takes_reservation max).passes hr
  | reserved max => exact (declares_reserved max).passes hr
  | extensions => exact declares_extensions.passes hr
  | enumValue => exact declares_enumValue.passes hr
  | enum => exact (declares_enum below).passes hr
  | stream => exact takes_stream.passes hr
  | rpc => exact (declares_rpc below).passes hr
  | service => exact (declares_service below).passes hr
  | message fuel => exact (declares_message (bodies fuel)).passes hr
  | group fuel => exact (declares_group (bodies fuel)).passes hr
  | oneof fuel => exact (declares_oneof (bodies fuel)).passes hr
  | extend fuel => exact (declares_extend (bodies fuel)).passes hr
  | blockMember fuel kind => exact (statement_blockMember fuel kind _).passes hr
  | blockBody fuel name kind => exact (tracedBody_blockBody fuel name kind _).passes hr
  | syntaxLevel => exact declares_syntaxLevel.passes hr
  | edition => exact declares_edition.passes hr
  | package => exact declares_package.passes hr
  | importModifier => exact takes_importModifier.passes hr
  | importing => exact declares_importing.passes hr
  | item earlier => exact (statement_item below earlier).passes hr

/-- No rule goes back. -/
theorem Part.proceeds {α : Type} {x : Rule α} (h : Part x) {r : Reader} (hr : r.Lexed) :
    Proceeds x r := by
  rcases h.passes hr with ⟨a, s, w, run, pass⟩ | ⟨f, s, w, run, pass⟩
  · exact Or.inl ⟨a, s, run, by rw [pass.position]; exact Nat.le_add_right ..⟩
  · exact Or.inr ⟨f, s, run, by rw [pass.position]; exact Nat.le_add_right ..⟩

/-- Before the end of the file, a round of the loop over statements takes a token. -/
theorem itemStep_next (earlier : List Item) {r : Reader} (hr : r.Lexed) (there : r.rest ≠ []) :
    ∃ o s w, itemStep earlier r = .ok o s ∧ r.Passes w s ∧ w ≠ [] := by
  rcases (statement_item (Nat.zero_le _) earlier).cases hr rfl with
    ⟨o, s, run, gives⟩ | ⟨f, s, run, stumbles⟩
  · obtain ⟨w, pass, ne⟩ := gives.way.exists_passes
    exact ⟨o, s, w, run_itemStep_ok run, pass, ne⟩
  · obtain ⟨w, pass, ne⟩ := stumbles.exists_passes_skipStatement there
    exact ⟨none, _, w, run_itemStep_fault run, pass, ne⟩

/-- Before its closing brace, a round of the loop over the members of a body takes a
token. -/
theorem memberStep_next (fuel : Nat) (block : Block) {r : Reader} (hr : r.Lexed)
    (right : r.current.kind ≠ .rightBrace) (there : r.rest ≠ []) :
    ∃ o s w, memberStep block (blockMember fuel block.kind) r = .ok (some o) s ∧
      r.Passes w s ∧ w ≠ [] := by
  rcases (statement_blockMember fuel block.kind r.depth).cases hr rfl with
    ⟨o, s, run, gives⟩ | ⟨f, s, run, stumbles⟩
  · obtain ⟨w, pass, ne⟩ := gives.way.exists_passes
    exact ⟨o, s, w, run_memberStep_ok block right there run, pass, ne⟩
  · obtain ⟨w, pass, ne⟩ := stumbles.exists_passes_skipMember there right
    exact ⟨none, _, w, run_memberStep_fault block right there run, pass, ne⟩

end Rule

/-- **Reading is total.**  Every text gives a file, and the file is what the loop over
statements gives when all tokens are taken.  From every place in the tokens every rule
of the grammar ends with a result or a fault, never with a literal without an answer,
and it does not go back; every round of the loop over statements and every round of
the loop over the members of a body ends with a result and takes at least one token. -/
theorem parse_reads_every_text (uri source : Text) :
    (∃ items last, Rule.items (Reader.ofStream (TokenStream.ofText source)) = .ok items last ∧
      last.atEnd = true ∧
      SchemaFile.parse uri source = ⟨uri, Span.ofText source, items, last.faults.reverse⟩) ∧
    ∀ r : Reader, r.Over (TokenStream.ofText source) →
      (∀ (α : Type) (x : Rule α), Rule.Part x → x.Proceeds r) ∧
      (r.atEnd = false → ∀ earlier, ∃ o s, Rule.itemStep earlier r = .ok o s ∧
        r.position < s.position) ∧
      (r.atEnd = false → r.current.kind ≠ .rightBrace → ∀ fuel block, ∃ o s,
        Rule.memberStep block (Rule.blockMember fuel block.kind) r = .ok (some o) s ∧
          r.position < s.position) := by
  constructor
  · obtain ⟨items, last, run, file, ended, -⟩ := SchemaFile.exists_run uri source
    exact ⟨items, last, run, by rw [Reader.atEnd, ended]; rfl, file⟩
  · intro r standing
    have hr := standing.lexed
    have there : r.atEnd = false → r.rest ≠ [] := by
      intro h ended
      rw [Reader.atEnd, ended] at h
      cases h
    have further : ∀ {s w}, r.Passes w s → w ≠ [] → r.position < s.position := by
      intro s w pass taken
      have := List.length_pos_iff.2 taken
      rw [pass.position]
      omega
    refine ⟨fun _ _ part => part.proceeds hr, fun h earlier => ?_, fun h right fuel block => ?_⟩
    · obtain ⟨o, s, w, run, pass, taken⟩ := Rule.itemStep_next earlier hr (there h)
      exact ⟨o, s, run, further pass taken⟩
    · obtain ⟨o, s, w, run, pass, taken⟩ := Rule.memberStep_next fuel block hr right (there h)
      exact ⟨o, s, run, further pass taken⟩

/-- A text that opens with a closing brace and then has an infinity with two signs. -/
def strayBrace : Text := "\x7d option o = - -inf ;"

/-- The stray brace is passed over, and the whole text is read. -/
theorem strayBrace_is_read :
    (∃ o s, Rule.itemStep [] (Reader.ofStream (TokenStream.ofText strayBrace)) = .ok o s ∧
      0 < s.position) ∧
    ∃ items last, Rule.items (Reader.ofStream (TokenStream.ofText strayBrace)) = .ok items last ∧
      last.atEnd = true := by
  obtain ⟨⟨items, last, run, ended, -⟩, places⟩ := parse_reads_every_text "a.proto" strayBrace
  exact ⟨(places _ (Reader.over_ofStream _)).2.1 (by decide +kernel) [], items, last, run, ended⟩

end ProtoAtlas
