/-
# Running rules

How the parts of rules run from a reader: what they give, and the reader they leave.  A
rule that only *looks* leaves its reader as it is (`Rule.Looks`).

All readers of a text are readers of lexed tokens (`Reader.Lexed`), with a token at the end
that no rule asks for.
-/

import ProtoAtlas.Grammar.File
import ProtoAtlas.Proofs.Grammar.Brace

namespace ProtoAtlas

/-! ### Readers of lexed tokens -/

namespace Reader

/-- A reader whose tokens are cut off some text. -/
structure Lexed (r : Reader) : Prop where
  rest : ∀ t ∈ r.rest, t.Lexed
  finish : r.finish.kind = .endOfFile

theorem Passes.lexed {r s : Reader} {w : List Token} (h : r.Passes w s) (hr : r.Lexed) :
    s.Lexed where
  rest := fun t ht => hr.rest t (h.rest ▸ List.mem_append_right w ht)
  finish := h.finish ▸ hr.finish

theorem lexed_ofStream (source : Text) : (ofStream (TokenStream.ofText source)).Lexed where
  rest := fun _ ht => Token.lexed_of_mem_tokens ht
  finish := rfl

theorem current_of_rest {r : Reader} {t : Token} {ts : List Token} (h : r.rest = t :: ts) :
    r.current = t := by
  simp [current, peek, h]

/-- A token with another kind than the end of the file is there to be taken. -/
theorem Lexed.rest_eq {r : Reader} (hr : r.Lexed) (h : r.current.kind ≠ .endOfFile) :
    ∃ ts, r.rest = r.current :: ts := by
  cases hrest : r.rest with
  | nil =>
    have : r.current = r.finish := by simp [current, peek, hrest]
    rw [this] at h
    exact absurd hr.finish h
  | cons t ts => exact ⟨ts, by rw [current_of_rest hrest]⟩

theorem Lexed.current_lexed {r : Reader} (hr : r.Lexed) (h : r.current.kind ≠ .endOfFile) :
    r.current.Lexed := by
  obtain ⟨ts, hrest⟩ := hr.rest_eq h
  exact hr.rest _ (hrest ▸ List.mem_cons_self)

/-- Taking a token that is there. -/
theorem Lexed.passes_advance_current {r : Reader} (hr : r.Lexed)
    (h : r.current.kind ≠ .endOfFile) : r.Passes [r.current] r.advance := by
  obtain ⟨ts, hrest⟩ := hr.rest_eq h
  have pass := passes_advance r
  rw [hrest] at pass
  exact pass

theorem faults_advance (r : Reader) : r.advance.faults = r.faults := by
  unfold advance
  split <;> rfl

theorem faults_advanceBy (n : Nat) (r : Reader) : (r.advanceBy n).faults = r.faults := by
  induction n generalizing r with
  | zero => rfl
  | succ n ih => exact (ih r.advance).trans r.faults_advance

end Reader

theorem Token.isPlain_of_kind {t : Token} {kind : TokenKind} (h : t.kind = kind)
    (plain : kind ≠ .leftBrace ∧ kind ≠ .rightBrace) : t.IsPlain := by
  rw [IsPlain, h]
  exact plain

theorem Token.kind_of_isWord {t : Token} {word : Text} (h : t.isWord word = true) :
    t.kind = .identifier := by
  rw [isWord, Bool.and_eq_true, decide_eq_true_eq] at h
  exact h.1

namespace Rule

variable {α β : Type}

/-! ### Sequences -/

theorem run_bind_ok {x : Rule α} {r s : Reader} {a : α} (h : x r = .ok a s) (f : α → Rule β) :
    (x >>= f) r = f a s := by
  simp only [Bind.bind, EStateM.bind, h]

theorem run_map_ok {x : Rule α} {r s : Reader} {a : α} (h : x r = .ok a s) (f : α → β) :
    (f <$> x) r = .ok (f a) s := by
  simp only [Functor.map, EStateM.map, h]

theorem run_bind_error {x : Rule α} {r s : Reader} {e : Stop} (h : x r = .error e s)
    (f : α → Rule β) : (x >>= f) r = .error e s := by
  simp only [Bind.bind, EStateM.bind, h]

theorem run_map_error {x : Rule α} {r s : Reader} {e : Stop} (h : x r = .error e s) (f : α → β) :
    (f <$> x) r = .error e s := by
  simp only [Functor.map, EStateM.map, h]

theorem value_of_run {x : Rule α} {r s : Reader} {a : α} (run : x r = .ok a s) :
    x.run' r = some a := by
  delta EStateM.run' EStateM.run
  rw [run]

theorem run_of_value {x : Rule α} {r : Reader} {a : α} (h : x.run' r = some a) :
    ∃ s, x r = .ok a s := by
  delta EStateM.run' EStateM.run at h
  cases run : x r with
  | ok b s =>
    rw [run] at h
    cases h
    exact ⟨s, rfl⟩
  | error e s =>
    rw [run] at h
    cases h

theorem run_recovering_ok {x : Rule α} {r s : Reader} {a : α} (h : x r = .ok a s)
    (handle : SyntaxFault → Rule α) : recovering x handle r = .ok a s := by
  simp only [recovering, tryCatch, tryCatchThe, MonadExceptOf.tryCatch, EStateM.tryCatch, h]

theorem run_recovering_fault {x : Rule α} {r s : Reader} {f : SyntaxFault}
    (h : x r = .error (.fault f) s) (handle : SyntaxFault → Rule α) :
    recovering x handle r = handle f s := by
  simp only [recovering, tryCatch, tryCatchThe, MonadExceptOf.tryCatch, EStateM.tryCatch, h]
  rfl

/-! ### Looks -/

/-- A rule that only looks. -/
def Looks (x : Rule α) : Prop := ∀ r : Reader, ∃ a, x r = .ok a r

theorem run_get (r : Reader) : (get : Rule Reader) r = .ok r r := rfl

theorem run_current (r : Reader) : current r = .ok r.current r := rfl

theorem run_peek (distance : Nat) (r : Reader) : peek distance r = .ok (r.peek distance) r := rfl

theorem run_previous (r : Reader) : previous r = .ok r.previous r := rfl

theorem run_check (kind : TokenKind) (r : Reader) :
    check kind r = .ok (decide (r.current.kind = kind)) r := rfl

theorem run_checkWord (word : Text) (r : Reader) :
    checkWord word r = .ok (r.current.isWord word) r := rfl

theorem looks_get : Looks (get : Rule Reader) := fun r => ⟨r, rfl⟩

theorem looks_peek (distance : Nat) : Looks (peek distance) := fun r => ⟨r.peek distance, rfl⟩

theorem looks_check (kind : TokenKind) : Looks (check kind) := fun r => ⟨_, run_check kind r⟩

theorem looks_checkWord (word : Text) : Looks (checkWord word) := fun r => ⟨_, run_checkWord word r⟩

theorem looks_startsBlock (word : Text) : Looks (startsBlock word) := fun _ => ⟨_, rfl⟩

theorem looks_startsGroupAt (distance : Nat) : Looks (startsGroupAt distance) := fun _ => ⟨_, rfl⟩

theorem looks_startsGroup : Looks startsGroup := by
  intro r
  obtain ⟨here, run⟩ := looks_startsGroupAt 0 r
  obtain ⟨behind, run'⟩ := looks_startsGroupAt 1 r
  unfold startsGroup
  rw [run_bind_ok run]
  cases here with
  | true => exact ⟨true, rfl⟩
  | false =>
    rw [if_neg (by decide), run_bind_ok (run_current r)]
    split
    · exact ⟨behind, run'⟩
    · exact ⟨false, rfl⟩

/-! ### Tokens -/

theorem run_advance (r : Reader) : advance r = .ok r.current r.advance := rfl

theorem run_accept (kind : TokenKind) (r : Reader) :
    accept kind r = if r.current.kind = kind then .ok true r.advance else .ok false r := by
  change (if (decide (r.current.kind = kind)) = true then
    advance >>= fun _ => Pure.pure true else Pure.pure false : Rule Bool) r = _
  split_ifs with h h' h'
  · rfl
  · exact absurd (of_decide_eq_true h) h'
  · exact absurd (decide_eq_true h') h
  · rfl

theorem run_expect (kind : TokenKind) (what : Text) (r : Reader) :
    expect kind what r =
      if r.current.kind = kind then .ok r.current r.advance
      else .error (.fault ⟨.expected what, r.current.span⟩) r := by
  change (if (decide (r.current.kind = kind)) = true then advance
    else reject (.expected what) : Rule Token) r = _
  split_ifs with h h' h'
  · rfl
  · exact absurd (of_decide_eq_true h) h'
  · exact absurd (decide_eq_true h') h
  · rfl

theorem run_expectWord (word what : Text) (r : Reader) :
    expectWord word what r =
      if r.current.isWord word then .ok r.current r.advance
      else .error (.fault ⟨.expected what, r.current.span⟩) r := by
  unfold expectWord
  rw [run_bind_ok (run_checkWord word r)]
  split <;> rfl

/-! ### Aggregates -/

theorem run_aggregate_closed {r : Reader} (left : r.current.kind = .leftBrace) {n : Nat}
    (found : Token.blockLength? 0 r.advance.rest = some n) :
    aggregate r = .ok (Text.join " " (r.current.text :: replay [] (r.advance.rest.take n)))
      (r.advance.advanceBy n) := by
  unfold aggregate
  rw [run_bind_ok ((run_expect .leftBrace "'\x7b'" r).trans (if_pos left)),
    run_bind_ok (run_get r.advance)]
  simp only [found]
  rfl

theorem run_aggregate_open {r : Reader} (left : r.current.kind = .leftBrace)
    (found : Token.blockLength? 0 r.advance.rest = none) :
    aggregate r = .error (.fault ⟨.unterminatedAggregate, r.current.span⟩)
      (r.advance.advanceBy r.advance.rest.length) := by
  unfold aggregate
  rw [run_bind_ok ((run_expect .leftBrace "'\x7b'" r).trans (if_pos left)),
    run_bind_ok (run_get r.advance)]
  simp only [found]
  rfl

theorem run_aggregate_refused {r : Reader} (left : r.current.kind ≠ .leftBrace) :
    aggregate r = .error (.fault ⟨.expected "'\x7b'", r.current.span⟩) r :=
  run_bind_error ((run_expect .leftBrace "'\x7b'" r).trans (if_neg left)) _

/-! ### Bodies -/

section Members

variable (block : Block) {member : Rule (Option α)} {r s : Reader}

/-- At its closing brace a body ends. -/
theorem run_memberStep_closed (right : r.current.kind = .rightBrace) :
    memberStep block member r = .ok none r.advance := by
  unfold memberStep
  rw [run_bind_ok ((run_accept _ r).trans (if_pos right))]
  rfl

/-- At the end of the file a body ends with a fault. -/
theorem run_memberStep_unclosed (right : r.current.kind ≠ .rightBrace) (ended : r.rest = []) :
    memberStep block member r = .ok none (r.record ⟨.unclosed block, r.current.span⟩) := by
  have atEnd : r.atEnd = true := by rw [Reader.atEnd, ended]; rfl
  unfold memberStep
  rw [run_bind_ok ((run_accept _ r).trans (if_neg right)), if_neg (by decide),
    run_bind_ok (run_get r), if_pos atEnd]
  rfl

/-- In front of anything else a body goes on with a member. -/
theorem run_memberStep (right : r.current.kind ≠ .rightBrace) (there : r.rest ≠ []) :
    memberStep block member r =
      recovering (some <$> member) (fun fault => do
        record fault
        modify Reader.skipMember
        return some none) r := by
  have notEnd : ¬r.atEnd = true := by simpa [Reader.atEnd] using there
  unfold memberStep
  rw [run_bind_ok ((run_accept _ r).trans (if_neg right)), if_neg (by decide),
    run_bind_ok (run_get r), if_neg notEnd]

theorem run_memberStep_ok {o : Option α} (right : r.current.kind ≠ .rightBrace)
    (there : r.rest ≠ []) (run : member r = .ok o s) :
    memberStep block member r = .ok (some o) s := by
  rw [run_memberStep block right there]
  exact run_recovering_ok (run_map_ok run some) _

/-- A member that fails is recorded and passed over. -/
theorem run_memberStep_fault {f : SyntaxFault} (right : r.current.kind ≠ .rightBrace)
    (there : r.rest ≠ []) (run : member r = .error (.fault f) s) :
    memberStep block member r = .ok (some none) (s.record f).skipMember := by
  rw [run_memberStep block right there]
  exact run_recovering_fault (run_map_error run some) _

theorem run_repeatUpTo_succ {step : Rule (Option β)} {b : β} (run : step r = .ok (some b) s)
    (fuel : Nat) : repeatUpTo step (fuel + 1) r = ((b :: ·) <$> repeatUpTo step fuel) s := by
  rw [repeatUpTo, run_bind_ok run]
  rfl

theorem run_repeatUpTo_last {step : Rule (Option β)} (run : step r = .ok none s) (fuel : Nat) :
    repeatUpTo step (fuel + 1) r = .ok [] s := by
  rw [repeatUpTo, run_bind_ok run]
  rfl

theorem run_inside_ok {x : Rule α} {a : α} (h : x r.enter = .ok a s) :
    inside x r = .ok a s.leave := by
  have entered : (modify Reader.enter : Rule PUnit) r = .ok ⟨⟩ r.enter := rfl
  rw [inside, run_bind_ok entered]
  simp only [tryFinally, tryFinally', Functor.map, EStateM.map, h]
  rfl

theorem run_inside_error {x : Rule α} {e : Stop} (h : x r.enter = .error e s) :
    inside x r = .error e s.leave := by
  have entered : (modify Reader.enter : Rule PUnit) r = .ok ⟨⟩ r.enter := rfl
  rw [inside, run_bind_ok entered]
  simp only [tryFinally, tryFinally', Functor.map, EStateM.map, h]
  rfl

theorem run_body (r : Reader) :
    body block member r =
      if maxNesting ≤ r.depth then tooDeep block r else inside (members block member) r := by
  rw [body, run_bind_ok (run_get r)]
  split <;> rfl

end Members

/-! ### Files -/

section Items

variable {earlier : List Item} {r s : Reader}

theorem run_itemStep_ok {o : Option Item} (run : item earlier r = .ok o s) :
    itemStep earlier r = .ok o s :=
  run_recovering_ok run _

/-- A statement that fails is recorded and passed over. -/
theorem run_itemStep_fault {f : SyntaxFault} (run : item earlier r = .error (.fault f) s) :
    itemStep earlier r = .ok none (s.record f).skipStatement :=
  run_recovering_fault run _

theorem run_itemsUpTo_succ {o : Option Item} (there : r.rest ≠ [])
    (run : itemStep earlier r = .ok o s) (fuel : Nat) :
    itemsUpTo (fuel + 1) earlier r = itemsUpTo fuel (o.toList ++ earlier) s := by
  rw [itemsUpTo, run_bind_ok (run_get r), if_neg (by simpa [Reader.atEnd] using there),
    run_bind_ok run]

theorem run_itemsUpTo_atEnd (ended : r.rest = []) (fuel : Nat) :
    itemsUpTo fuel earlier r = .ok earlier.reverse r := by
  have atEnd : r.atEnd = true := by rw [Reader.atEnd, ended]; rfl
  cases fuel with
  | zero => rfl
  | succ fuel =>
    rw [itemsUpTo, run_bind_ok (run_get r), if_pos atEnd]
    rfl

end Items
end Rule
end ProtoAtlas
