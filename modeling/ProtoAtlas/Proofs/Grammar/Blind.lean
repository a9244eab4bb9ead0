/-
# Rules that do not see places and comments

A token *stripped* of its place and its comments is its lexeme and nothing else.
Stripping a reader strips all its tokens, forgets the comment it keeps and the places
of its faults.  A rule is *blind* if stripping the reader before it runs comes to the
same as stripping reader and result afterwards:

```text
        r  ──────── x ────────▶  a, s
        │                          │
     stripped                   v, stripped
        ▼                          ▼
    r.stripped ──── y ────▶  v a, s.stripped
```

`Blind v x y` says so of every reader.  The rule below is `x` itself, except that it
has been given the stripped data where `x` has been given data read before.  Blind
rules follow each other (`Blind.seq`), and so do their repetitions, their bodies and
their recovery from faults: how many tokens are passed over depends on kinds alone.
-/

import ProtoAtlas.Proofs.Schema.Printed
import ProtoAtlas.Proofs.Grammar.Run

namespace ProtoAtlas

/-! ### Stripping -/

/-- A token without its place and its comments. -/
def Token.stripped (t : Token) : Token := ⟨t.kind, t.text, Span.empty, none, none⟩

/-- A fault without its place. -/
def SyntaxFault.unplaced (f : SyntaxFault) : SyntaxFault := ⟨f.cause, Span.empty⟩

namespace Token

@[simp] theorem kind_stripped (t : Token) : t.stripped.kind = t.kind := rfl

@[simp] theorem text_stripped (t : Token) : t.stripped.text = t.text := rfl

theorem statementLength_stripped (ts : List Token) :
    statementLength (ts.map stripped) = statementLength ts := by
  induction ts with
  | nil => rfl
  | cons t ts ih => simp only [List.map_cons, statementLength, kind_stripped, ih]

theorem memberLength_stripped (depth : Nat) (ts : List Token) :
    memberLength depth (ts.map stripped) = memberLength depth ts := by
  induction ts generalizing depth with
  | nil => rfl
  | cons t ts ih => simp only [List.map_cons, memberLength, kind_stripped, ih]

theorem blockLength?_stripped (depth : Nat) (ts : List Token) :
    blockLength? depth (ts.map stripped) = blockLength? depth ts := by
  induction ts generalizing depth with
  | nil => rfl
  | cons t ts ih => simp only [List.map_cons, blockLength?, kind_stripped, ih]

end Token

theorem Rule.replay_stripped (pending : List Text) (ts : List Token) :
    replay pending (ts.map Token.stripped) = replay pending ts := by
  induction ts generalizing pending with
  | nil => rfl
  | cons t ts ih => simp only [List.map_cons, replay, Token.kind_stripped, Token.text_stripped, ih]

namespace Reader

/-- A reader of stripped tokens that keeps no comment and no places of faults. -/
def stripped (r : Reader) : Reader :=
  ⟨r.taken.map Token.stripped, r.rest.map Token.stripped, r.finish.stripped, none,
    r.faults.map SyntaxFault.unplaced, r.depth⟩

theorem peek_stripped (r : Reader) (distance : Nat) :
    r.stripped.peek distance = (r.peek distance).stripped := by
  simp only [peek, stripped, List.getD_eq_getElem?_getD, List.getElem?_map]
  cases r.rest[distance]? <;> rfl

theorem current_stripped (r : Reader) : r.stripped.current = r.current.stripped :=
  r.peek_stripped 0

theorem previous_stripped (r : Reader) : r.stripped.previous = r.previous.stripped := by
  unfold previous
  rw [current_stripped]
  cases h : r.taken <;> simp only [stripped, h] <;> rfl

theorem atEnd_stripped (r : Reader) : r.stripped.atEnd = r.atEnd :=
  List.isEmpty_map

theorem advance_stripped (r : Reader) : r.stripped.advance = r.advance.stripped := by
  cases h : r.rest <;> simp only [advance, stripped, h] <;> rfl

theorem advanceBy_stripped (n : Nat) (r : Reader) :
    r.stripped.advanceBy n = (r.advanceBy n).stripped := by
  induction n generalizing r with
  | zero => rfl
  | succ n ih => rw [advanceBy, advanceBy, advance_stripped, ih]

theorem skipStatement_stripped (r : Reader) :
    r.stripped.skipStatement = r.skipStatement.stripped := by
  rw [skipStatement, skipStatement, ← advanceBy_stripped]
  exact congrArg (advanceBy · r.stripped) (Token.statementLength_stripped r.rest)

theorem skipMember_stripped (r : Reader) : r.stripped.skipMember = r.skipMember.stripped := by
  rw [skipMember, skipMember, ← advanceBy_stripped]
  exact congrArg (advanceBy · r.stripped) (Token.memberLength_stripped 0 r.rest)

theorem skipBlock_stripped (r : Reader) : r.stripped.skipBlock = r.skipBlock.stripped := by
  rw [skipBlock, skipBlock, ← advanceBy_stripped]
  simp only [stripped, Token.blockLength?_stripped, List.length_map]

end Reader

/-! ### Blind rules -/

/-- Why a rule ends without a result, without the place of a fault. -/
def Stop.unplaced : Stop → Stop
  | .fault f => .fault f.unplaced
  | .literal e => .literal e

namespace Rule

variable {α β : Type}

/-- How a rule ends, with its result changed and the rest stripped. -/
def strippedEnd (v : α → α) : EStateM.Result Stop Reader α → EStateM.Result Stop Reader α
  | .ok a s => .ok (v a) s.stripped
  | .error e s => .error e.unplaced s.stripped

/-- From every reader, stripping first and then running `y` comes to the same as running
`x` first and then stripping. -/
def Blind (v : α → α) (x y : Rule α) : Prop :=
  ∀ r : Reader, y r.stripped = strippedEnd v (x r)

namespace Blind

variable {v : α → α} {w : β → β} {x x' y y' : Rule α}

/-- A rule that leaves the reader alone. -/
theorem of_run {a : Reader → α} (run : ∀ r, x r = .ok (a r) r)
    (blind : ∀ r, a r.stripped = v (a r)) : Blind v x x := by
  intro r
  rw [run, run, blind]
  rfl

theorem pure {a b : α} (h : b = v a) : Blind v (pure a : Rule α) (pure b) := by
  rintro r
  rw [h]
  rfl

/-- **Blind rules follow each other.**  The second is given what the first reads, stripped
or not. -/
theorem seq {f g : α → Rule β} (hx : Blind v x y) (hf : ∀ a, Blind w (f a) (g (v a))) :
    Blind w (x >>= f) (y >>= g) := by
  intro r
  have first := hx r
  cases run : x r with
  | ok a s =>
    rw [run] at first
    rw [run_bind_ok run, run_bind_ok first]
    exact hf a s
  | error e s =>
    rw [run] at first
    rw [run_bind_error run, run_bind_error first]
    rfl

theorem ite {c : Prop} [Decidable c] (hx : Blind v x x') (hy : Blind v y y') :
    Blind v (if c then x else y) (if c then x' else y') := by
  split
  · exact hx
  · exact hy

theorem map {f : α → β} (hx : Blind v x y) (h : ∀ a, f (v a) = w (f a)) :
    Blind w (f <$> x) (f <$> y) := by
  intro r
  have first := hx r
  cases run : x r with
  | ok a s =>
    rw [run] at first
    rw [run_map_ok run, run_map_ok first, h]
    rfl
  | error e s =>
    rw [run] at first
    simp only [Functor.map, EStateM.map, run, first, strippedEnd]

theorem fault {f g : SyntaxFault} (h : g = f.unplaced) :
    Blind v (throw (.fault f) : Rule α) (throw (.fault g)) := by
  intro r
  rw [h]
  rfl

/-- A change of the reader. -/
theorem change {f : Reader → Reader} (h : ∀ r, f r.stripped = (f r).stripped) :
    Blind id (modify f : Rule Unit) (modify f) := by
  intro r
  exact congrArg (EStateM.Result.ok ()) (h r)

/-- **Recovery is blind** if the rule and what is done about its fault are. -/
theorem recovering {h k : SyntaxFault → Rule α} (hx : Blind v x y)
    (hh : ∀ f, Blind v (h f) (k f.unplaced)) :
    Blind v (recovering x h) (recovering y k) := by
  intro r
  have first := hx r
  cases run : x r with
  | ok a s =>
    rw [run] at first
    rw [run_recovering_ok run, run_recovering_ok first]
    rfl
  | error e s =>
    rw [run] at first
    cases e with
    | fault f =>
      rw [run_recovering_fault run, run_recovering_fault first]
      exact hh f s
    | literal e =>
      simp only [Rule.recovering, tryCatch, tryCatchThe, MonadExceptOf.tryCatch, EStateM.tryCatch,
        run, first, strippedEnd, Stop.unplaced]
      rfl

end Blind

/-! ### The parts of rules -/

theorem blind_get : Blind Reader.stripped get get :=
  .of_run run_get fun _ => rfl

theorem blind_current : Blind Token.stripped current current :=
  .of_run run_current Reader.current_stripped

theorem blind_peek (distance : Nat) : Blind Token.stripped (peek distance) (peek distance) :=
  .of_run (run_peek distance) (Reader.peek_stripped · distance)

theorem blind_previous : Blind Token.stripped previous previous :=
  .of_run run_previous Reader.previous_stripped

theorem blind_check (kind : TokenKind) : Blind id (check kind) (check kind) :=
  blind_current.seq fun _ => .pure rfl

theorem blind_checkWord (word : Text) : Blind id (checkWord word) (checkWord word) :=
  blind_current.seq fun _ => .pure rfl

theorem blind_advance : Blind Token.stripped advance advance := by
  intro r
  rw [run_advance, run_advance, Reader.current_stripped, Reader.advance_stripped]
  rfl

theorem blind_accept (kind : TokenKind) : Blind id (accept kind) (accept kind) :=
  (blind_check kind).seq fun _ => .ite (blind_advance.seq fun _ => .pure rfl) (.pure rfl)

theorem blind_faultHere (cause : SyntaxCause) :
    Blind SyntaxFault.unplaced (faultHere cause) (faultHere cause) :=
  blind_current.seq fun _ => .pure rfl

theorem blind_reject (v : α → α) (cause : SyntaxCause) :
    Blind v (reject cause : Rule α) (reject cause) :=
  (blind_faultHere cause).seq fun _ => .fault rfl

theorem blind_expect (kind : TokenKind) (what : Text) :
    Blind Token.stripped (expect kind what) (expect kind what) :=
  (blind_check kind).seq fun _ => .ite blind_advance (blind_reject _ _)

theorem blind_expectWord (word what : Text) :
    Blind Token.stripped (expectWord word what) (expectWord word what) :=
  (blind_checkWord word).seq fun _ => .ite blind_advance (blind_reject _ _)

theorem blind_keyword (word : Text) : Blind Token.stripped (keyword word) (keyword word) :=
  blind_expectWord _ _

theorem blind_record (f : SyntaxFault) : Blind id (record f) (record f.unplaced) := fun _ => rfl

theorem blind_answer (f : SyntaxFault) (e : Except Literal.NumberError (Option α)) :
    Blind id (answer f e) (answer f.unplaced e) := by
  rcases e with e | _ | a
  · exact fun _ => rfl
  · exact .fault rfl
  · exact .pure rfl

/-- A comment is claimed where there is one; stripped tokens have none. -/
theorem blind_claimComment (first : Token) :
    Blind (fun _ => none) (claimComment first) (claimComment first.stripped) := fun _ => rfl

theorem blind_close (first : Token) (comment : Option Text) (brace : Option Token) :
    Blind NodeInfo.bare (close first comment brace)
      (close first.stripped none (brace.map Token.stripped)) :=
  blind_previous.seq fun _ => .pure (by cases brace <;> rfl)

/-! ### Repetition -/

section Repetition

variable {v : α → α} {x y : Rule (Option α)}

theorem blind_repeatUpTo (hx : Blind (Option.map v) x y) (fuel : Nat) :
    Blind (List.map v) (repeatUpTo x fuel) (repeatUpTo y fuel) := by
  induction fuel with
  | zero => exact .pure rfl
  | succ fuel ih =>
    refine hx.seq fun o => ?_
    cases o with
    | none => exact .pure rfl
    | some a => exact ih.seq fun _ => .pure rfl

/-- A stripped reader has as many tokens left. -/
theorem blind_many (hx : Blind (Option.map v) x y) : Blind (List.map v) (many x) (many y) :=
  blind_get.seq fun r => by
    rw [Reader.stripped, List.length_map]
    exact blind_repeatUpTo hx _

theorem blind_separatedBy (separator : TokenKind) {e : Rule α} (he : Blind v e e) :
    Blind (List.map v) (separatedBy separator e) (separatedBy separator e) := by
  have more : Blind (Option.map v)
      (do if ← accept separator then return some (← e) else return none)
      (do if ← accept separator then return some (← e) else return none) :=
    (blind_accept separator).seq fun _ => .ite (he.seq fun _ => .pure rfl) (.pure rfl)
  exact he.seq fun _ => (blind_many more).seq fun _ => .pure rfl

end Repetition

/-! ### Bodies -/

section Bodies

variable {v : α → α} (block : Block) {member : Rule (Option α)}

theorem blind_memberStep (hm : Blind (Option.map v) member member) :
    Blind (Option.map (Option.map v)) (memberStep block member) (memberStep block member) := by
  refine (blind_accept _).seq fun closed => .ite (.pure rfl) ?_
  refine blind_get.seq fun r => ?_
  rw [Reader.atEnd_stripped]
  refine .ite ((blind_faultHere _).seq fun f => (blind_record f).seq fun _ => .pure rfl) ?_
  refine Blind.recovering (hm.map fun _ => rfl) fun f => (blind_record f).seq fun _ => ?_
  exact (Blind.change Reader.skipMember_stripped).seq fun _ => .pure rfl

theorem blind_members (hm : Blind (Option.map v) member member) :
    Blind (List.map v) (members block member) (members block member) := by
  refine (blind_many (blind_memberStep block hm)).seq fun found => .pure ?_
  rw [List.filterMap_map, List.map_filterMap]
  rfl

theorem blind_tooDeep (v : α → α) :
    Blind (List.map v) (tooDeep block : Rule (List α)) (tooDeep block) :=
  (blind_faultHere _).seq fun f => (blind_record f).seq fun _ =>
    (Blind.change Reader.skipBlock_stripped).seq fun _ => .pure rfl

theorem blind_inside {x : Rule β} {v : β → β} (hx : Blind v x x) :
    Blind v (inside x) (inside x) := by
  intro r
  have inner : x r.stripped.enter = strippedEnd v (x r.enter) := hx r.enter
  cases run : x r.enter with
  | ok a s =>
    rw [run] at inner
    rw [run_inside_ok run, run_inside_ok inner]
    rfl
  | error e s =>
    rw [run] at inner
    rw [run_inside_error run, run_inside_error inner]
    rfl

theorem blind_body (hm : Blind (Option.map v) member member) :
    Blind (List.map v) (body block member) (body block member) :=
  blind_get.seq fun _ => .ite (blind_tooDeep block v) (blind_inside (blind_members block hm))

end Bodies

end Rule
end ProtoAtlas
