/-
# What reading a file does, step by step

A rule of the grammar does one of three things to its reader:

* it *goes* on over tokens, takes comments for what it declares and records nothing; the
  braces of these tokens are closed in them, and no statement ends in them (`Reader.Goes`);
* it goes on to the token that ends its statement (`Reader.GoesTo`): a `;`, or a brace with
  a body behind it;
* it *stumbles*: it fails before it has recorded anything, and the fault is at a token it
  has taken or at the next one (`Reader.Stumbles`).

`MembersRead`, `BodyRead` and `FileRead` are all that the loops over members and over
statements make of this: they record the fault of a rule that stumbles and pass over what is
left of it.  A body is passed over as a whole if at least `limit` bodies are open.  What
holds of every reading is shown by induction on these relations, without a look at the
rules.
-/

import Mathlib.Data.List.Perm.Subperm
import ProtoAtlas.Proofs.Grammar.Run

namespace ProtoAtlas

/-- The kinds of tokens that stand inside a statement: neither a brace nor a `;`. -/
def TokenKind.Ordinary (kind : TokenKind) : Prop :=
  kind ≠ .leftBrace ∧ kind ≠ .rightBrace ∧ kind ≠ .semicolon ∧ kind ≠ .endOfFile

instance (kind : TokenKind) : Decidable kind.Ordinary :=
  inferInstanceAs (Decidable (_ ∧ _))

namespace Token

/-- No statement ends in some tokens: a `;` in them stands behind a brace. -/
def Unended : List Token → Prop
  | [] => True
  | t :: ts => t.kind ≠ .semicolon ∧ (t.kind = .leftBrace ∨ Unended ts)

theorem unended_single {t : Token} (h : t.kind ≠ .semicolon) : Unended [t] :=
  ⟨h, Or.inr trivial⟩

theorem Unended.append {v w : List Token} (hv : Unended v) (hw : Unended w) :
    Unended (v ++ w) := by
  induction v with
  | nil => exact hw
  | cons t ts ih => exact ⟨hv.1, hv.2.imp_right ih⟩

/-- The comments in front of some tokens, but for those that say nothing. -/
def leadings (ts : List Token) : List Text := ts.filterMap fun t => Rule.spoken t.leading

theorem leadings_append (ts us : List Token) : leadings (ts ++ us) = leadings ts ++ leadings us :=
  List.filterMap_append

theorem leadings_cons (t : Token) (ts : List Token) :
    leadings (t :: ts) = (Rule.spoken t.leading).toList ++ leadings ts := by
  rw [leadings, List.filterMap_cons]
  cases Rule.spoken t.leading <;> rfl

/-- No token has a comment behind it. -/
def Quiet (ts : List Token) : Prop := ∀ t ∈ ts, t.trailing = none

theorem Quiet.left {v w : List Token} (h : Quiet (v ++ w)) : Quiet v :=
  fun t ht => h t (List.mem_append_left w ht)

theorem Quiet.right {v w : List Token} (h : Quiet (v ++ w)) : Quiet w :=
  fun t ht => h t (List.mem_append_right v ht)

end Token

namespace Reader

/-! ### Comments -/

/-- The comments that a declaration can still claim: the one that is kept, and those in
front of the tokens that are left. -/
def comments (r : Reader) : List Text := r.dangling.toList ++ Token.leadings r.rest

/-- A token that is taken replaces the comment that was kept, if it has one in front. -/
theorem comments_advance (r : Reader) : r.advance.comments.Sublist r.comments := by
  unfold advance
  split
  · exact List.Sublist.refl _
  · next t ts rest =>
    rw [comments, comments, rest, Token.leadings_cons]
    cases said : t.leading with
    | none => exact List.Sublist.refl _
    | some text =>
      cases text with
      | nil => exact List.Sublist.refl _
      | cons c cs => exact List.sublist_append_right _ _

theorem comments_advanceBy (n : Nat) (r : Reader) :
    (r.advanceBy n).comments.Sublist r.comments := by
  induction n generalizing r with
  | zero => exact List.Sublist.refl _
  | succ n ih => exact (ih r.advance).trans r.comments_advance

/-! ### Steps of a reader -/

/-- One reader becomes another one over some tokens and gives some comments away.  The
tokens are part of a statement, with their braces closed, and no fault is recorded. -/
structure Goes (r : Reader) (w : List Token) (given : List Text) (s : Reader) : Prop where
  passes : r.Passes w s
  faults : s.faults = r.faults
  closed : Token.openAfter 0 w = some 0
  unended : Token.Unended w
  comments : (given ++ s.comments).Subperm r.comments

/-- One reader goes on to a token of a kind and takes it. -/
inductive GoesTo (r : Reader) (kind : TokenKind) : Reader → Prop
  | mk {w : List Token} {given : List Text} {m : Reader} {t : Token} (goes : r.Goes w given m)
      (pass : m.Passes [t] m.advance) (same : t.kind = kind) : GoesTo r kind m.advance

/-- A rule fails with a fault at a token it has taken or at the next one.  It has recorded
no fault, and the cause is not the depth of a body. -/
structure Stumbles (r : Reader) (f : SyntaxFault) (s : Reader) : Prop where
  way : ∃ w, r.Passes w s ∧ Token.Unended w ∧
    (Token.openAfter 0 w = some 0 ∨ s.rest = [] ∧ (Token.openAfter 0 w).isSome) ∧
    (f.span = s.current.span ∨ ∃ t ∈ w, f.span = t.span)
  faults : s.faults = r.faults
  comments : s.comments.Subperm r.comments
  cause : ∀ block, f.cause ≠ .tooDeep block

/-- How the members of a body are read, from inside it: one by one, each without a body,
with a body, with a body that is too deep, or faulty. -/
inductive MembersRead (limit : Nat) : Reader → Reader → Prop
  | closed {r : Reader} {brace : Token} {ts : List Token} (rest : r.rest = brace :: ts)
      (right : brace.kind = .rightBrace) : MembersRead limit r r.advance
  | unclosed {r : Reader} (block : Block) (ended : r.rest = []) :
      MembersRead limit r (r.record ⟨.unclosed block, r.current.span⟩)
  | plain {r s t : Reader} (right : r.current.kind ≠ .rightBrace) (goes : r.GoesTo .semicolon s)
      (tail : MembersRead limit s t) : MembersRead limit r t
  | block {r s t u : Reader} (right : r.current.kind ≠ .rightBrace)
      (goes : r.GoesTo .leftBrace s) (room : s.depth < maxNesting)
      (inner : MembersRead limit s.enter t) (tail : MembersRead limit t.leave u) :
      MembersRead limit r u
  | tooDeep {r s u : Reader} (right : r.current.kind ≠ .rightBrace)
      (goes : r.GoesTo .leftBrace s) (full : limit ≤ s.depth) (block : Block)
      (tail : MembersRead limit (s.record ⟨.tooDeep block, s.current.span⟩).skipBlock u) :
      MembersRead limit r u
  | faulty {r s t : Reader} {f : SyntaxFault} (right : r.current.kind ≠ .rightBrace)
      (stumbles : r.Stumbles f s) (tail : MembersRead limit (s.record f).skipMember t) :
      MembersRead limit r t

/-- How a body is read from behind its opening brace: it is entered, read and left, unless
too many bodies are open. -/
inductive BodyRead (limit : Nat) : Reader → Reader → Prop
  | entered {r s : Reader} (room : r.depth < maxNesting) (inner : MembersRead limit r.enter s) :
      BodyRead limit r s.leave
  | tooDeep {r : Reader} (full : limit ≤ r.depth) (block : Block) :
      BodyRead limit r (r.record ⟨.tooDeep block, r.current.span⟩).skipBlock

/-- One reader goes on to the end of a statement: through its `;` or through its body. -/
inductive Finishes (limit : Nat) (r : Reader) : Reader → Prop
  | plain {s : Reader} (goes : r.GoesTo .semicolon s) : Finishes limit r s
  | block {s t : Reader} (goes : r.GoesTo .leftBrace s) (body : BodyRead limit s t) :
      Finishes limit r t

/-- How a file is read from some place on: its statements one by one. -/
inductive FileRead (limit : Nat) : Reader → Reader → Prop
  | done {r : Reader} (ended : r.rest = []) : FileRead limit r r
  | statement {r s t : Reader} (finishes : r.Finishes limit s) (tail : FileRead limit s t) :
      FileRead limit r t
  | faulty {r s t : Reader} {f : SyntaxFault} (stumbles : r.Stumbles f s)
      (tail : FileRead limit (s.record f).skipStatement t) : FileRead limit r t

variable {limit : Nat} {r s t : Reader} {v w : List Token} {given more : List Text}
variable {kind : TokenKind} {f : SyntaxFault}

/-- The tokens taken begin with the one that was next. -/
theorem Passes.head (h : r.Passes w s) (ne : w ≠ []) : w.head? = some r.current := by
  obtain ⟨first, more, rfl⟩ := List.exists_cons_of_ne_nil ne
  rw [current_of_rest h.rest]
  rfl

/-- Where no token was taken, the next one is the same. -/
theorem Passes.current_eq (h : r.Passes [] s) : s.current = r.current := by
  have rest : s.rest = r.rest := h.rest.symm
  rw [current, current, peek, peek, rest, h.finish]

/-- The latest token is the last of those taken. -/
theorem Passes.previous (h : r.Passes w s) (ne : w ≠ []) : w.getLast? = some s.previous := by
  obtain ⟨front, last, rfl⟩ := (List.eq_nil_or_concat w).resolve_left ne
  rw [Reader.previous, h.taken]
  simp

/-! ### Going on -/

namespace Goes

theorem refl (r : Reader) : r.Goes [] [] r :=
  ⟨.refl r, rfl, rfl, trivial, List.Subperm.refl _⟩

theorem trans (h : r.Goes v given s) (h' : s.Goes w more t) :
    r.Goes (v ++ w) (given ++ more) t where
  passes := h.passes.trans h'.passes
  faults := h'.faults.trans h.faults
  closed := by rw [Token.openAfter_append, h.closed]; exact h'.closed
  unended := h.unended.append h'.unended
  comments := by
    rw [List.append_assoc]
    exact ((List.Subperm.refl given).append h'.comments).trans h.comments

theorem clears (h : r.Goes w given s) : r.Clears s := ⟨w, h.passes, Or.inl h.closed⟩

/-- A rule that goes on and then stumbles. -/
theorem stumbles (h : r.Goes v given s) (h' : s.Stumbles f t) : r.Stumbles f t where
  way := by
    obtain ⟨w, pass, unended, closed, place⟩ := h'.way
    refine ⟨v ++ w, h.passes.trans pass, h.unended.append unended, ?_, ?_⟩
    · rw [Token.openAfter_append, h.closed]
      exact closed
    · refine place.imp_right fun ⟨token, mem, same⟩ => ⟨token, ?_, same⟩
      exact List.mem_append_right v mem
  faults := h'.faults.trans h.faults
  comments := h'.comments.trans
    ((List.sublist_append_right given s.comments).subperm.trans h.comments)
  cause := h'.cause

/-- A fault at a token that was taken, or at the next one. -/
theorem fault (h : r.Goes w given s) (place : f.span = s.current.span ∨ ∃ t ∈ w, f.span = t.span)
    (cause : ∀ block, f.cause ≠ .tooDeep block) : r.Stumbles f s where
  way := ⟨w, h.passes, h.unended, Or.inl h.closed, place⟩
  faults := h.faults
  comments := (List.sublist_append_right given s.comments).subperm.trans h.comments
  cause := cause

end Goes

/-- Taking the next token, if there is one, inside a statement. -/
theorem goes_advance (plain : r.current.IsPlain) (inside : r.current.kind ≠ .semicolon) :
    r.Goes (r.rest.take 1) [] r.advance where
  passes := r.passes_advance
  faults := r.faults_advance
  closed := by
    cases rest : r.rest with
    | nil => rfl
    | cons t ts =>
      rw [current_of_rest rest] at plain
      exact Token.openAfter_plain plain 0 []
  unended := by
    cases rest : r.rest with
    | nil => trivial
    | cons t ts =>
      rw [current_of_rest rest] at inside
      exact Token.unended_single inside
  comments := r.comments_advance.subperm

theorem Lexed.goes_advance (hr : r.Lexed) (ordinary : r.current.kind.Ordinary) :
    r.Goes [r.current] [] r.advance := by
  obtain ⟨ts, rest⟩ := hr.rest_eq ordinary.2.2.2
  have goes := Reader.goes_advance ⟨ordinary.1, ordinary.2.1⟩ ordinary.2.2.1
  rwa [rest] at goes

/-- **A comment that is claimed leaves the stock.**  It is the one in front of the first of
the tokens just taken, or else the one that is kept. -/
theorem Goes.claim (h : r.Goes w [] s) (ne : w ≠ []) :
    r.Goes w ((Rule.spoken r.current.leading).or s.dangling).toList
      { s with dangling := none } where
  passes := ⟨h.passes.rest, h.passes.taken, h.passes.finish, h.passes.faults, h.passes.depth⟩
  faults := h.faults
  closed := h.closed
  unended := h.unended
  comments := by
    cases said : Rule.spoken r.current.leading with
    | none =>
      have stock := h.comments
      rwa [List.nil_append] at stock
    | some c =>
      -- The comment is counted at its token before the way; what was kept is lost.
      obtain ⟨first, more, rfl⟩ := List.exists_cons_of_ne_nil ne
      have current : r.current = first := current_of_rest h.passes.rest
      rw [current] at said
      have stock : Token.leadings r.rest =
          [c] ++ (Token.leadings more ++ Token.leadings s.rest) := by
        rw [h.passes.rest, List.cons_append, Token.leadings_cons, Token.leadings_append, said]
        rfl
      refine List.Sublist.subperm ?_
      change ([c] ++ Token.leadings s.rest).Sublist (r.dangling.toList ++ Token.leadings r.rest)
      rw [stock]
      refine List.Sublist.trans ?_ (List.sublist_append_right _ _)
      exact (List.Sublist.refl [c]).append (List.sublist_append_right _ _)

/-! ### To the end of a statement -/

namespace GoesTo

theorem exists_passes (h : r.GoesTo kind s) : ∃ w, r.Passes w s ∧ w ≠ [] := by
  obtain ⟨goes, pass, -⟩ := h
  exact ⟨_, goes.passes.trans pass, by simp⟩

theorem faults (h : r.GoesTo kind s) : s.faults = r.faults := by
  obtain ⟨goes, -, -⟩ := h
  exact (faults_advance _).trans goes.faults

theorem clears (h : r.GoesTo .semicolon s) : r.Clears s := by
  obtain @⟨w, given, m, t, goes, pass, same⟩ := h
  refine goes.clears.trans ⟨_, pass, Or.inl ?_⟩
  exact Token.openAfter_plain (Token.isPlain_of_kind same (by decide)) 0 []

theorem clears_of_closes (h : r.GoesTo .leftBrace s) (h' : s.Closes t) : r.Clears t := by
  obtain ⟨goes, pass, same⟩ := h
  exact goes.clears.trans (h'.clears_of_leftBrace pass same)

end GoesTo

/-- Where a rule stumbles, its braces are closed or the file has ended. -/
theorem Stumbles.clears (h : r.Stumbles f s) : r.Clears s := by
  obtain ⟨w, pass, -, closed, -⟩ := h.way
  exact ⟨w, pass, closed⟩

/-- The rest of a member that stumbles has no open braces. -/
theorem Stumbles.clears_skipMember (h : r.Stumbles f s) : r.Clears (s.record f).skipMember :=
  h.clears.trans ((Clears.of_passes_nil (s.passes_record f)).trans (s.record f).clears_skipMember)

/-- A body that is too deep is passed over up to its closing brace. -/
theorem closes_tooDeep (r : Reader) (block : Block) :
    r.Closes (r.record ⟨.tooDeep block, r.current.span⟩).skipBlock :=
  closes_skipBlock (r.passes_record _) (Nat.lt_succ_self _)

/-- **The members of a body are read up to its closing brace.** -/
theorem MembersRead.closes (h : MembersRead limit r s) : r.Closes s := by
  induction h with
  | @closed r brace ts rest right =>
    have pass := r.passes_advance
    rw [rest] at pass
    exact Or.inl ⟨[], brace, pass, rfl, right⟩
  | @unclosed r block ended =>
    exact Or.inr ⟨[], r.passes_record _, ended, rfl, Nat.lt_succ_self _⟩
  | plain _ goes _ ih => exact goes.clears.trans_closes ih
  | block _ goes _ _ _ inner tail => exact (goes.clears_of_closes inner.leave).trans_closes tail
  | tooDeep _ goes _ block _ tail =>
    exact (goes.clears_of_closes (closes_tooDeep _ block)).trans_closes tail
  | faulty _ stumbles _ ih => exact stumbles.clears_skipMember.trans_closes ih

theorem BodyRead.closes (h : BodyRead limit r s) : r.Closes s := by
  cases h with
  | entered _ inner => exact inner.closes.leave
  | tooDeep _ block => exact closes_tooDeep r block

theorem Finishes.exists_passes (h : r.Finishes limit s) : ∃ w, r.Passes w s ∧ w ≠ [] := by
  cases h with
  | plain goes => exact goes.exists_passes
  | block goes body =>
    obtain ⟨v, pass, ne⟩ := goes.exists_passes
    rcases body.closes with ⟨w, c, pass', -⟩ | ⟨w, pass', -⟩
    · exact ⟨_, pass.trans pass', by simp⟩
    · exact ⟨_, pass.trans pass', by simp [ne]⟩

end Reader
end ProtoAtlas
