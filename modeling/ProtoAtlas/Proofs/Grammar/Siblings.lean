/-
# A faulty member leaves its siblings alone

The loops over statements and over members read one statement after the other, and pass
over one that fails.  For a statement without braces both ways end at the same place,
right behind its `;`: a rule stays in front of it unless it gives a result, and recovery
starts from there.  So a round of a loop adds exactly one result or exactly one fault, or
nothing for a `;` alone, and the loop goes on as if it started behind the statement.
-/

import ProtoAtlas.Proofs.Grammar.Total

namespace ProtoAtlas

/-! ### Tokens of a statement without braces -/

namespace Token

/-- The tokens that a statement without braces may have in front of its `;`. -/
def IsInner (t : Token) : Prop :=
  t.kind ≠ .leftBrace ∧ t.kind ≠ .rightBrace ∧ t.kind ≠ .semicolon

instance (t : Token) : Decidable t.IsInner :=
  inferInstanceAs (Decidable (_ ∧ _))

variable {inner after rest w : List Token} {semicolon : Token}

/-- Tokens in which no statement ends do not go over the `;` of one without braces. -/
theorem Unended.exists_append (h : Unended w) (same : inner ++ semicolon :: after = w ++ rest)
    (plain : ∀ t ∈ inner, t.IsInner) (ends : semicolon.kind = .semicolon) :
    ∃ v, inner = w ++ v ∧ rest = v ++ semicolon :: after := by
  induction w generalizing inner with
  | nil => exact ⟨inner, rfl, same.symm⟩
  | cons t ts ih =>
    cases inner with
    | nil =>
      obtain ⟨rfl, -⟩ := List.cons.inj same
      exact absurd ends h.1
    | cons a as =>
      obtain ⟨rfl, tail⟩ := List.cons.inj same
      have unended : Unended ts := h.2.resolve_left (plain a List.mem_cons_self).1
      obtain ⟨v, rfl, behind⟩ := ih unended tail fun b hb => plain b (List.mem_cons_of_mem a hb)
      exact ⟨v, rfl, behind⟩

theorem memberLength_statement (plain : ∀ t ∈ inner, t.IsInner)
    (ends : semicolon.kind = .semicolon) :
    memberLength 0 (inner ++ semicolon :: after) = inner.length + 1 := by
  induction inner with
  | nil => simp [memberLength, ends]
  | cons t ts ih =>
    obtain ⟨left, right, other⟩ := plain t List.mem_cons_self
    have rest := ih fun u hu => plain u (List.mem_cons_of_mem t hu)
    rw [List.cons_append, memberLength, if_neg right, if_neg left, if_neg fun h => other h.1,
      rest, List.length_cons, Nat.add_comm]

theorem statementLength_statement (plain : ∀ t ∈ inner, t.IsInner)
    (ends : semicolon.kind = .semicolon) :
    statementLength (inner ++ semicolon :: after) = inner.length + 1 := by
  induction inner with
  | nil => simp [statementLength, ends]
  | cons t ts ih =>
    obtain ⟨-, right, other⟩ := plain t List.mem_cons_self
    have rest := ih fun u hu => plain u (List.mem_cons_of_mem t hu)
    rw [List.cons_append, statementLength, if_neg (not_or.2 ⟨other, right⟩), rest,
      List.length_cons, Nat.add_comm]

end Token

namespace Reader

variable {r s : Reader} {inner after : List Token} {semicolon : Token} {limit : Nat}

section Statement

variable (ahead : r.rest = inner ++ semicolon :: after) (plain : ∀ t ∈ inner, t.IsInner)
  (ends : semicolon.kind = .semicolon)
include ahead plain ends

/-- The token that a rule goes to is the `;` of the statement, or it is in front of it. -/
theorem GoesTo.cases_statement {kind : TokenKind} (h : r.GoesTo kind s) :
    (kind = .semicolon ∧ r.Passes (inner ++ [semicolon]) s) ∨ ∃ t ∈ inner, t.kind = kind := by
  obtain @⟨w, given, m, t, goes, pass, same⟩ := h
  obtain ⟨v, rfl, rest⟩ := goes.unended.exists_append (ahead.symm.trans goes.passes.rest)
    plain ends
  rw [pass.rest] at rest
  cases v with
  | nil =>
    obtain ⟨rfl, -⟩ := List.cons.inj rest
    rw [List.append_nil]
    exact Or.inl ⟨same.symm.trans ends, goes.passes.trans pass⟩
  | cons a v =>
    obtain ⟨rfl, -⟩ := List.cons.inj rest
    exact Or.inr ⟨t, by simp, same⟩

/-- A statement without braces finishes behind its `;`. -/
theorem Finishes.passes_statement (h : r.Finishes limit s) :
    r.Passes (inner ++ [semicolon]) s ∧ s.faults = r.faults := by
  cases h with
  | plain goes =>
    rcases goes.cases_statement ahead plain ends with ⟨-, pass⟩ | ⟨t, ht, same⟩
    · exact ⟨pass, goes.faults⟩
    · exact absurd same (plain t ht).2.2
  | block goes =>
    rcases goes.cases_statement ahead plain ends with ⟨same, -⟩ | ⟨t, ht, same⟩
    · cases same
    · exact absurd same (plain t ht).1

/-- Where a statement without braces stumbles, the rest of it up to its `;` is left. -/
theorem Stumbles.passes_statement {f : SyntaxFault} (h : r.Stumbles f s) {length : List Token → Nat}
    (skips : ∀ v, (∀ t ∈ v, t.IsInner) → length (v ++ semicolon :: after) = v.length + 1) :
    r.Passes (inner ++ [semicolon]) ((s.record f).advanceBy (length s.rest)) := by
  obtain ⟨w, pass, unended, -⟩ := h.way
  obtain ⟨v, rfl, rest⟩ := unended.exists_append (ahead.symm.trans pass.rest) plain ends
  rw [rest, skips v fun t ht => plain t (List.mem_append_right w ht), List.append_assoc]
  have skipped := (s.record f).passes_advanceBy (v.length + 1)
  have taken : (s.record f).rest.take (v.length + 1) = v ++ [semicolon] := by
    rw [show (s.record f).rest = s.rest from rfl, rest, List.take_length_add_append]
    rfl
  rw [taken] at skipped
  exact pass.trans ((s.passes_record f).trans skipped)

end Statement

/-- A round of a loop over a statement: the tokens through its `;` are taken.  A `;` alone
adds nothing, and any other statement adds one result or one fault. -/
structure Completes {α : Type} (r : Reader) (inner : List Token) (semicolon : Token)
    (added : Option α) (s : Reader) : Prop where
  passes : r.Passes (inner ++ [semicolon]) s
  empty : inner = [] → added = none ∧ s.faults = r.faults
  full : inner ≠ [] → (added.isSome = true ∧ s.faults = r.faults) ∨
    (added = none ∧ ∃ fault, s.faults = fault :: r.faults)

end Reader

namespace Rule

variable {α β : Type}

/-! ### One round of a loop -/

/-- **One round takes one statement.** -/
theorem Statement.completes {limit d : Nat} {kinds : List NodeKind} {x : Rule (Option α)}
    {node : α → Node} (h : Statement limit d kinds x node) {r : Reader} (hr : r.Lexed)
    (depth : r.depth = d) {inner after : List Token} {semicolon : Token}
    (ahead : r.rest = inner ++ semicolon :: after) (plain : ∀ t ∈ inner, t.IsInner)
    (ends : semicolon.kind = .semicolon) {length : List Token → Nat}
    (skips : ∀ v, (∀ t ∈ v, t.IsInner) → length (v ++ semicolon :: after) = v.length + 1) :
    (∃ added s, x r = .ok added s ∧ r.Completes inner semicolon added s) ∨
      ∃ f s, x r = .error (.fault f) s ∧ r.Completes inner semicolon (none : Option α)
        ((s.record f).advanceBy (length s.rest)) := by
  cases inner with
  | nil =>
    have current : r.current = semicolon := Reader.current_of_rest ahead
    have pass := hr.passes_advance_current (by simp [current, ends])
    rw [current] at pass
    exact Or.inl ⟨none, r.advance, h.empty r (by rw [current, ends]), pass,
      fun _ => ⟨rfl, r.faults_advance⟩, fun full => absurd rfl full⟩
  | cons t ts =>
    have other : r.current.kind ≠ .semicolon := by
      rw [Reader.current_of_rest ahead]
      exact (plain t List.mem_cons_self).2.2
    have runs := h.full r hr depth other
    have full : t :: ts ≠ [] := List.cons_ne_nil t ts
    cases run : x r with
    | ok o s =>
      obtain ⟨a, rfl, -, declared⟩ := runs.ok run
      obtain ⟨pass, faults⟩ := declared.finishes.passes_statement ahead plain ends
      exact Or.inl ⟨some a, s, rfl, pass, fun empty => absurd empty full,
        fun _ => .inl ⟨rfl, faults⟩⟩
    | error e s =>
      cases e with
      | fault f =>
        have stumbles := runs.fault run
        refine Or.inr ⟨f, s, rfl, stumbles.passes_statement ahead plain ends skips,
          fun empty => absurd empty full, fun _ => .inr ⟨rfl, f, ?_⟩⟩
        rw [Reader.faults_advanceBy, Reader.record, stumbles.faults]
      | literal e => exact absurd run runs.literal

/-! ### The loop behind a round

The tokens left bound the rounds, so a loop that has done one round is the loop that starts
behind it. -/

/-- A step that gives something takes a token. -/
def Advances (step : Rule (Option β)) : Prop :=
  ∀ r : Reader, r.Lexed → (∃ s, step r = .ok none s) ∨
    ∃ b s, step r = .ok (some b) s ∧ s.Lexed ∧ s.rest.length < r.rest.length

/-- All numbers of rounds above the tokens left are equal. -/
theorem repeatUpTo_eq_of_lt {step : Rule (Option β)} (advances : Advances step) {m n : Nat}
    {r : Reader} (hr : r.Lexed) (hm : r.rest.length < m) (hn : r.rest.length < n) :
    repeatUpTo step m r = repeatUpTo step n r := by
  induction m generalizing n r with
  | zero => omega
  | succ m ih =>
    obtain ⟨n, rfl⟩ : ∃ k, n = k + 1 := ⟨n - 1, by omega⟩
    rcases advances r hr with ⟨s, run⟩ | ⟨b, s, run, hs, fewer⟩
    · rw [repeatUpTo, repeatUpTo, run_bind_ok run, run_bind_ok run]
    · have same : repeatUpTo step m s = repeatUpTo step n s := ih hs (by omega) (by omega)
      rw [run_repeatUpTo_succ run, run_repeatUpTo_succ run]
      simp only [Functor.map, EStateM.map, same]

theorem advances_memberStep (fuel : Nat) (block : Block) :
    Advances (memberStep block (blockMember fuel block.kind)) := by
  intro r hr
  by_cases right : r.current.kind = .rightBrace
  · exact .inl ⟨_, run_memberStep_closed block right⟩
  by_cases ended : r.rest = []
  · exact .inl ⟨_, run_memberStep_unclosed block right ended⟩
  obtain ⟨o, s, w, run, pass, taken⟩ := memberStep_next fuel block hr right ended
  exact .inr ⟨o, s, run, pass.lexed hr, pass.length_rest_lt taken⟩

/-- A body goes on behind a member as it would start there. -/
theorem run_members_of_step (block : Block) {member : Rule (Option α)}
    (advances : Advances (memberStep block member)) {r s : Reader} (hs : s.Lexed)
    (fewer : s.rest.length < r.rest.length) {o : Option α}
    (run : memberStep block member r = .ok (some o) s) :
    members block member r = ((o.toList ++ ·) <$> members block member) s := by
  have enough := repeatUpTo_eq_of_lt advances hs fewer
    (Nat.lt_succ_self s.rest.length)
  have whole : many (memberStep block member) r =
      ((o :: ·) <$> many (memberStep block member)) s := by
    rw [many, run_bind_ok (run_get r), run_repeatUpTo_succ run]
    simp only [Functor.map, EStateM.map, enough]
    rfl
  have found : ∀ os : List (Option α), (o :: os).filterMap id = o.toList ++ os.filterMap id := by
    intro os
    cases o <;> rfl
  unfold members
  simp only [bind, EStateM.bind, whole, Functor.map, EStateM.map]
  cases many (memberStep block member) s with
  | ok os t =>
    change EStateM.Result.ok ((o :: os).filterMap id) t = .ok (o.toList ++ os.filterMap id) t
    rw [found]
  | error stop t => rfl

/-- All numbers of rounds from the tokens left on are equal. -/
theorem itemsUpTo_eq_of_le {m n : Nat} {earlier : List Item} {r : Reader} (hr : r.Lexed)
    (hm : r.rest.length ≤ m) (hn : r.rest.length ≤ n) :
    itemsUpTo m earlier r = itemsUpTo n earlier r := by
  induction m generalizing n earlier r with
  | zero =>
    have ended : r.rest = [] := List.length_eq_zero_iff.1 (Nat.le_zero.1 hm)
    rw [run_itemsUpTo_atEnd ended, run_itemsUpTo_atEnd ended]
  | succ m ih =>
    by_cases ended : r.rest = []
    · rw [run_itemsUpTo_atEnd ended, run_itemsUpTo_atEnd ended]
    · obtain ⟨o, s, w, run, pass, taken⟩ := itemStep_next earlier hr ended
      have fewer := pass.length_rest_lt taken
      obtain ⟨n, rfl⟩ : ∃ k, n = k + 1 := ⟨n - 1, by omega⟩
      rw [run_itemsUpTo_succ ended run, run_itemsUpTo_succ ended run]
      exact ih (pass.lexed hr) (by omega) (by omega)

end Rule

/-- **A faulty statement disturbs no other one.**  Take any place in the tokens of a text, with
anything noted before, where some tokens without braces and `;` and then a `;` are next.  In
the loop over the statements of a file, and in the loop over the members of any body, with any
number of bodies still allowed inside it, one round ends right behind that `;`.  For the `;` alone
it adds nothing.  Otherwise it adds one statement or member and no fault, or one fault and no
statement or member.  What was there before stays, and the loop goes on from there as if it
started behind the `;`. -/
theorem round_takes_one_statement (source : Text) (r : Reader)
    (standing : r.Over (TokenStream.ofText source)) (inner after : List Token) (semicolon : Token)
    (ahead : r.rest = inner ++ semicolon :: after) (plain : ∀ t ∈ inner, t.IsInner)
    (ends : semicolon.kind = .semicolon) :
    (∀ earlier, ∃ added s, Rule.itemStep earlier r = .ok added s ∧
      r.Completes inner semicolon added s ∧
      Rule.itemsUpTo r.rest.length earlier r =
        Rule.itemsUpTo s.rest.length (added.toList ++ earlier) s) ∧
    ∀ fuel block, ∃ added s,
      Rule.memberStep block (Rule.blockMember fuel block.kind) r = .ok (some added) s ∧
      r.Completes inner semicolon added s ∧
      Rule.members block (Rule.blockMember fuel block.kind) r =
        ((added.toList ++ ·) <$> Rule.members block (Rule.blockMember fuel block.kind)) s := by
  have hr := standing.lexed
  have there : r.rest ≠ [] := by rw [ahead]; simp
  constructor
  · intro earlier
    have step : ∃ added s, Rule.itemStep earlier r = .ok added s ∧
        r.Completes inner semicolon added s := by
      rcases (Rule.statement_item (Nat.zero_le _) earlier).completes hr rfl ahead plain ends
        (fun _ inside => Token.statementLength_statement inside ends) with
        ⟨added, s, run, completes⟩ | ⟨f, s, run, completes⟩
      · exact ⟨added, s, Rule.run_itemStep_ok run, completes⟩
      · exact ⟨none, _, Rule.run_itemStep_fault run, completes⟩
    obtain ⟨added, s, run, completes⟩ := step
    refine ⟨added, s, run, completes, ?_⟩
    have fewer := completes.passes.length_rest_lt (by simp)
    obtain ⟨n, size⟩ : ∃ n, r.rest.length = n + 1 := ⟨r.rest.length - 1, by omega⟩
    rw [size, Rule.run_itemsUpTo_succ there run]
    exact Rule.itemsUpTo_eq_of_le (completes.passes.lexed hr) (by omega) (Nat.le_refl _)
  · intro fuel block
    have right : r.current.kind ≠ .rightBrace := by
      cases inner with
      | nil =>
        rw [Reader.current_of_rest ahead, ends]
        decide
      | cons t ts =>
        rw [Reader.current_of_rest ahead]
        exact (plain t List.mem_cons_self).2.1
    have step : ∃ added s, Rule.memberStep block (Rule.blockMember fuel block.kind) r =
        .ok (some added) s ∧ r.Completes inner semicolon added s := by
      rcases (Rule.statement_blockMember fuel block.kind _).completes hr rfl ahead plain ends
        (fun _ inside => Token.memberLength_statement inside ends) with
        ⟨added, s, run, completes⟩ | ⟨f, s, run, completes⟩
      · exact ⟨added, s, Rule.run_memberStep_ok block right there run, completes⟩
      · exact ⟨none, _, Rule.run_memberStep_fault block right there run, completes⟩
    obtain ⟨added, s, run, completes⟩ := step
    exact ⟨added, s, run, completes, Rule.run_members_of_step block
      (Rule.advances_memberStep fuel block) (completes.passes.lexed hr)
      (completes.passes.length_rest_lt (by simp)) run⟩

/-- A message in which a `;` is missing between two fields and a third one follows. -/
def missingSemicolon : Text :=
  "message M \x7b string a = 1 string b = 2; string c = 3; \x7d"

/-- The reader behind the opening brace of that message. -/
def missingSemicolon.body : Reader :=
  (Reader.ofStream (TokenStream.ofText missingSemicolon)).advanceBy 3

/-- The two fields that run together are one fault, and the third one is next. -/
theorem missingSemicolon_is_one_fault :
    ∃ s, Rule.memberStep ⟨.message, "M"⟩ (Rule.blockMember 7 .message) missingSemicolon.body =
        .ok (some none) s ∧
      s.position = 12 ∧ s.faults.length = 1 := by
  have standing : missingSemicolon.body.Over (TokenStream.ofText missingSemicolon) :=
    (Reader.over_ofStream _).passes (Reader.passes_advanceBy 3 _)
  obtain ⟨semicolon, found, ends⟩ : ∃ t, missingSemicolon.body.rest[8]? = some t ∧
      t.kind = .semicolon := Option.map_eq_some_iff.1 (by decide +kernel)
  obtain ⟨inside, rfl⟩ := List.getElem?_eq_some_iff.1 found
  have ahead := List.take_append_drop 8 missingSemicolon.body.rest
  rw [List.drop_eq_getElem_cons inside] at ahead
  obtain ⟨-, bodies⟩ := round_takes_one_statement missingSemicolon _ standing _ _ _ ahead.symm
    (by decide +kernel) ends
  obtain ⟨added, s, run, completes, -⟩ := bodies 7 ⟨.message, "M"⟩
  have nothing : ((Rule.memberStep ⟨.message, "M"⟩ (Rule.blockMember 7 .message)).run'
      missingSemicolon.body).map (Option.map Option.isSome) = some (some false) := by
    decide +kernel
  have start : missingSemicolon.body.position = 3 ∧ missingSemicolon.body.faults.length = 0 := by
    decide +kernel
  have length : (missingSemicolon.body.rest.take 8).length = 8 := by decide +kernel
  rcases completes.full (List.length_pos_iff.1 (by omega)) with ⟨found, -⟩ | ⟨rfl, fault, more⟩
  · have given : (Rule.memberStep ⟨.message, "M"⟩ (Rule.blockMember 7 .message)).run'
        missingSemicolon.body = some (some added) := Rule.value_of_run run
    rw [given, Option.map_some, Option.map_some, found] at nothing
    cases nothing
  · refine ⟨s, run, ?_, ?_⟩
    · rw [completes.passes.position, List.length_append, length, start.1]
      rfl
    · rw [more, List.length_cons, start.2]

end ProtoAtlas
