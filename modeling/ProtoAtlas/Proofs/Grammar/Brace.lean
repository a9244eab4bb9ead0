/-
# Braces and the tokens a reader passes

The nesting of a stretch of tokens is the number of braces open behind it, if no
brace closes more than was opened (`Token.openAfter`).  A stretch that leaves no
brace open and closes none of those around it is what a rule may take inside a
body: putting two such stretches together gives one (`Reader.Clears.trans`).

`Token.Matches` says by counting which brace closes another one.  The three ways
of passing over tokens after a fault agree with it: a block is passed through the
brace that closes it, a member at most up to the brace that closes its body.
-/

import Mathlib.Data.List.TakeWhile
import Mathlib.Tactic.SplitIfs
import ProtoAtlas.Grammar.Reader
import ProtoAtlas.Proofs.Source.Lexeme

namespace ProtoAtlas

namespace Token

/-! ### Open braces -/

/-- How many braces are open behind some tokens, with `depth` of them open in
front; `none` if a brace closes one more. -/
def openAfter (depth : Nat) : List Token → Option Nat
  | [] => some depth
  | t :: ts =>
    if t.kind = .rightBrace then
      match depth with
      | 0 => none
      | d + 1 => openAfter d ts
    else if t.kind = .leftBrace then openAfter (depth + 1) ts
    else openAfter depth ts

@[simp] theorem openAfter_nil (depth : Nat) : openAfter depth [] = some depth := rfl

theorem openAfter_left {t : Token} (h : t.kind = .leftBrace) (depth : Nat) (ts : List Token) :
    openAfter depth (t :: ts) = openAfter (depth + 1) ts := by
  simp [openAfter, h]

theorem openAfter_right {t : Token} (h : t.kind = .rightBrace) (depth : Nat) (ts : List Token) :
    openAfter (depth + 1) (t :: ts) = openAfter depth ts := by
  simp [openAfter, h]

/-- The tokens that are no braces. -/
def IsPlain (t : Token) : Prop :=
  t.kind ≠ .leftBrace ∧ t.kind ≠ .rightBrace

theorem openAfter_plain {t : Token} (h : t.IsPlain) (depth : Nat) (ts : List Token) :
    openAfter depth (t :: ts) = openAfter depth ts := by
  simp [openAfter, h.1, h.2]

theorem openAfter_append (depth : Nat) (v w : List Token) :
    openAfter depth (v ++ w) = (openAfter depth v).bind (openAfter · w) := by
  fun_induction openAfter depth v with
  | case1 => rfl
  | case2 t ts h => simp [openAfter, h]
  | case3 t ts h d ih => rw [List.cons_append, openAfter_right h, ih]
  | case4 depth t ts _ h ih => rw [List.cons_append, openAfter_left h, ih]
  | case5 depth t ts h₁ h₂ ih => rw [List.cons_append, openAfter_plain ⟨h₂, h₁⟩, ih]

/-- More braces open in front stay open. -/
theorem openAfter_add {depth stop : Nat} {w : List Token} (h : openAfter depth w = some stop)
    (k : Nat) : openAfter (depth + k) w = some (stop + k) := by
  fun_induction openAfter depth w with
  | case1 => cases h; rfl
  | case2 => cases h
  | case3 t ts right d ih => rw [Nat.succ_add, openAfter_right right, ih h]
  | case4 depth t ts _ left ih => rw [openAfter_left left, Nat.add_right_comm, ih h]
  | case5 depth t ts h₁ h₂ ih => rw [openAfter_plain ⟨h₂, h₁⟩, ih h]

theorem openAfter_add_isSome {depth : Nat} {w : List Token} (h : (openAfter depth w).isSome)
    (k : Nat) : (openAfter (depth + k) w).isSome := by
  obtain ⟨stop, hs⟩ := Option.isSome_iff_exists.1 h
  rw [openAfter_add hs k]
  rfl

/-! ### Matching braces -/

/-- How many more braces are opened than closed. -/
def excess (ts : List Token) : Int :=
  ts.countP (·.kind = .leftBrace) - ts.countP (·.kind = .rightBrace)

/-- The tokens from one place through another. -/
def between (ts : List Token) (b m : Nat) : List Token :=
  (ts.drop b).take (m + 1 - b)

/-- The brace at `m` is the one that closes the brace at `b`: counted from `b` on,
`m` is the first place where as many braces are closed as are opened. -/
structure Matches (ts : List Token) (b m : Nat) : Prop where
  inside : m < ts.length
  notBefore : b ≤ m
  level : excess (between ts b m) = 0
  first : ∀ k < m, b ≤ k → excess (between ts b k) ≠ 0

instance (ts : List Token) (b m : Nat) : Decidable (Matches ts b m) :=
  decidable_of_iff (m < ts.length ∧ b ≤ m ∧ excess (between ts b m) = 0 ∧
      ∀ k < m, b ≤ k → excess (between ts b k) ≠ 0)
    ⟨fun ⟨h₁, h₂, h₃, h₄⟩ => ⟨h₁, h₂, h₃, h₄⟩, fun h => ⟨h.inside, h.notBefore, h.level, h.first⟩⟩

theorem Matches.unique {ts : List Token} {b m n : Nat} (hm : Matches ts b m)
    (hn : Matches ts b n) : m = n := by
  rcases Nat.lt_trichotomy m n with h | h | h
  · exact absurd hm.level (hn.first m h hm.notBefore)
  · exact h
  · exact absurd hn.level (hm.first n h hn.notBefore)

theorem excess_append (v w : List Token) : excess (v ++ w) = excess v + excess w := by
  simp only [excess, List.countP_append]
  omega

theorem excess_cons (t : Token) (ts : List Token) :
    excess (t :: ts) =
      (if t.kind = .leftBrace then 1 else if t.kind = .rightBrace then -1 else 0) + excess ts := by
  simp only [excess, List.countP_cons, decide_eq_true_eq]
  split_ifs with left right
  · simp [left] at right
  · omega
  · omega
  · omega

/-- The count agrees with the nesting. -/
theorem excess_eq {depth stop : Nat} {w : List Token} (h : openAfter depth w = some stop) :
    excess w = (stop : Int) - depth := by
  fun_induction openAfter depth w with
  | case1 => cases h; simp [excess]
  | case2 => cases h
  | case3 t ts right d ih =>
    rw [excess_cons, if_neg (by simp [right]), if_pos right, ih h]
    omega
  | case4 depth t ts _ left ih =>
    rw [excess_cons, if_pos left, ih h]
    omega
  | case5 depth t ts h₁ h₂ ih =>
    rw [excess_cons, if_neg h₂, if_neg h₁, ih h]
    omega

/-- In front of every place of a stretch the braces around it are still open. -/
theorem excess_take_nonneg {w : List Token} (h : (openAfter 0 w).isSome) (n : Nat) :
    0 ≤ excess (w.take n) := by
  obtain ⟨stop, hs⟩ := Option.isSome_iff_exists.1 h
  rw [← List.take_append_drop n w, openAfter_append] at hs
  obtain ⟨d, hd, -⟩ := Option.bind_eq_some_iff.1 hs
  rw [excess_eq hd]
  omega

/-! ### Passing over tokens -/

/-- A block is passed through the brace that closes it. -/
theorem split_of_blockLength? {depth n : Nat} {ts : List Token}
    (h : blockLength? depth ts = some n) :
    ∃ v c rest, ts = v ++ c :: rest ∧ n = v.length + 1 ∧ c.kind = .rightBrace ∧
      openAfter depth v = some 0 := by
  fun_induction blockLength? depth ts generalizing n with
  | case1 => cases h
  | case2 t ts right =>
    cases h
    exact ⟨[], t, ts, rfl, rfl, right, rfl⟩
  | case3 t ts right d ih =>
    obtain ⟨k, hk, rfl⟩ := Option.map_eq_some_iff.1 h
    obtain ⟨v, c, rest, rfl, rfl, hc, hv⟩ := ih hk
    exact ⟨t :: v, c, rest, rfl, Nat.add_comm .., hc, (openAfter_right right d v).trans hv⟩
  | case4 depth t ts _ left ih =>
    obtain ⟨k, hk, rfl⟩ := Option.map_eq_some_iff.1 h
    obtain ⟨v, c, rest, rfl, rfl, hc, hv⟩ := ih hk
    exact ⟨t :: v, c, rest, rfl, Nat.add_comm .., hc, (openAfter_left left depth v).trans hv⟩
  | case5 depth t ts h₁ h₂ ih =>
    obtain ⟨k, hk, rfl⟩ := Option.map_eq_some_iff.1 h
    obtain ⟨v, c, rest, rfl, rfl, hc, hv⟩ := ih hk
    exact ⟨t :: v, c, rest, rfl, Nat.add_comm .., hc, (openAfter_plain ⟨h₂, h₁⟩ depth v).trans hv⟩

/-- A block without a closing brace is open at the end. -/
theorem openAfter_of_blockLength?_eq_none {depth : Nat} {ts : List Token}
    (h : blockLength? depth ts = none) : (openAfter depth ts).isSome := by
  fun_induction blockLength? depth ts with
  | case1 => rfl
  | case2 => cases h
  | case3 t ts right d ih =>
    rw [openAfter_right right]
    exact ih (Option.map_eq_none_iff.1 h)
  | case4 depth t ts _ left ih =>
    rw [openAfter_left left]
    exact ih (Option.map_eq_none_iff.1 h)
  | case5 depth t ts h₁ h₂ ih =>
    rw [openAfter_plain ⟨h₂, h₁⟩]
    exact ih (Option.map_eq_none_iff.1 h)

/-- A member is passed to where all its braces are closed, or to the end. -/
theorem split_memberLength (depth : Nat) (ts : List Token) :
    ∃ w rest, ts = w ++ rest ∧ memberLength depth ts = w.length ∧
      (openAfter depth w = some 0 ∨ rest = [] ∧ (openAfter depth w).isSome) := by
  fun_induction memberLength depth ts with
  | case1 depth => exact ⟨[], [], rfl, rfl, Or.inr ⟨rfl, rfl⟩⟩
  | case2 t ts right => exact ⟨[], t :: ts, rfl, rfl, Or.inl rfl⟩
  | case3 t ts right => exact ⟨[t], ts, rfl, rfl, Or.inl (openAfter_right right 0 [])⟩
  | case4 t ts right d ih =>
    obtain ⟨w, rest, rfl, length, closed⟩ := ih
    refine ⟨t :: w, rest, rfl, by rw [length, List.length_cons, Nat.add_comm], ?_⟩
    rwa [openAfter_right right]
  | case5 depth t ts _ left ih =>
    obtain ⟨w, rest, rfl, length, closed⟩ := ih
    refine ⟨t :: w, rest, rfl, by rw [length, List.length_cons, Nat.add_comm], ?_⟩
    rwa [openAfter_left left]
  | case6 depth t ts h₁ h₂ semicolon =>
    refine ⟨[t], ts, rfl, rfl, Or.inl ?_⟩
    rw [openAfter_plain ⟨h₂, h₁⟩, semicolon.2]
    rfl
  | case7 depth t ts h₁ h₂ _ ih =>
    obtain ⟨w, rest, rfl, length, closed⟩ := ih
    refine ⟨t :: w, rest, rfl, by rw [length, List.length_cons, Nat.add_comm], ?_⟩
    rwa [openAfter_plain ⟨h₂, h₁⟩]

/-- In front of anything but a closing brace, passing over a member takes a token. -/
theorem memberLength_pos {t : Token} (h : t.kind ≠ .rightBrace) (ts : List Token) :
    0 < memberLength 0 (t :: ts) := by
  rw [memberLength, if_neg h]
  split_ifs <;> omega

theorem statementLength_pos (t : Token) (ts : List Token) : 0 < statementLength (t :: ts) := by
  rw [statementLength]
  split_ifs <;> omega

end Token

namespace Reader

/-! ### The tokens between two readers -/

/-- One reader takes the tokens `w` and becomes another one in the same body.  Faults may
be added. -/
structure Passes (r : Reader) (w : List Token) (s : Reader) : Prop where
  rest : r.rest = w ++ s.rest
  taken : s.taken = w.reverse ++ r.taken
  finish : s.finish = r.finish
  faults : r.faults <:+ s.faults
  depth : s.depth = r.depth

namespace Passes

variable {r s t : Reader} {v w : List Token}

theorem refl (r : Reader) : r.Passes [] r :=
  ⟨rfl, rfl, rfl, List.suffix_rfl, rfl⟩

theorem trans (h₁ : r.Passes v s) (h₂ : s.Passes w t) : r.Passes (v ++ w) t where
  rest := by rw [h₁.rest, h₂.rest, List.append_assoc]
  taken := by rw [h₂.taken, h₁.taken, List.reverse_append, List.append_assoc]
  finish := h₂.finish.trans h₁.finish
  faults := h₁.faults.trans h₂.faults
  depth := h₂.depth.trans h₁.depth

theorem position (h : r.Passes w s) : s.position = r.position + w.length := by
  simp only [Reader.position, h.taken, List.length_append, List.length_reverse]
  omega

theorem length_faults (h : r.Passes w s) : r.faults.length ≤ s.faults.length :=
  h.faults.length_le

/-- At the end nothing is left to take. -/
theorem eq_nil (h : r.Passes w s) (atEnd : r.rest = []) : w = [] ∧ s.rest = [] := by
  rw [h.rest] at atEnd
  exact List.append_eq_nil_iff.1 atEnd

/-- What is taken inside a body is taken from outside it, once the body is left. -/
theorem leave (h : r.enter.Passes w s) : r.Passes w s.leave where
  rest := h.rest
  taken := h.taken
  finish := h.finish
  faults := h.faults
  depth := by rw [Reader.leave, h.depth, enter, Nat.add_sub_cancel]

end Passes

theorem passes_advance (r : Reader) : r.Passes (r.rest.take 1) r.advance := by
  unfold advance
  split
  · next h =>
    rw [h]
    exact Passes.refl r
  · next t ts h =>
    rw [h]
    exact ⟨h, rfl, rfl, List.suffix_rfl, rfl⟩

theorem passes_advanceBy (n : Nat) (r : Reader) : r.Passes (r.rest.take n) (r.advanceBy n) := by
  induction n generalizing r with
  | zero => exact Passes.refl r
  | succ n ih =>
    have first := passes_advance r
    have split : r.rest.take (n + 1) = r.rest.take 1 ++ r.advance.rest.take n := by
      unfold advance
      split <;> next h => simp [h]
    rw [split]
    exact first.trans (ih r.advance)

theorem rest_advanceBy (n : Nat) (r : Reader) : (r.advanceBy n).rest = r.rest.drop n := by
  have h : r.rest.take n ++ r.rest.drop n = r.rest.take n ++ (r.advanceBy n).rest :=
    (List.take_append_drop n r.rest).trans (passes_advanceBy n r).rest
  exact (List.append_cancel_left h).symm

theorem passes_record (r : Reader) (f : SyntaxFault) : r.Passes [] (r.record f) :=
  ⟨rfl, rfl, rfl, List.suffix_cons f r.faults, rfl⟩

/-- One reader becomes another one by taking tokens whose braces are closed in
them, or all tokens there are. -/
def Clears (r s : Reader) : Prop :=
  ∃ w, r.Passes w s ∧
    (Token.openAfter 0 w = some 0 ∨ s.rest = [] ∧ (Token.openAfter 0 w).isSome)

/-- One reader becomes another one by taking the tokens of a body through its
closing brace, or all tokens there are and then a fault is added. -/
def Closes (r s : Reader) : Prop :=
  (∃ v c, r.Passes (v ++ [c]) s ∧ Token.openAfter 0 v = some 0 ∧ c.kind = .rightBrace) ∨
    ∃ w, r.Passes w s ∧ s.rest = [] ∧ (Token.openAfter 0 w).isSome ∧
      r.faults.length < s.faults.length

/-- A body that is read from inside is closed from outside. -/
theorem Closes.leave {r s : Reader} (h : r.enter.Closes s) : r.Closes s.leave := by
  rcases h with ⟨v, c, pass, closed, right⟩ | ⟨w, pass, ended, opened, grown⟩
  · exact Or.inl ⟨v, c, pass.leave, closed, right⟩
  · exact Or.inr ⟨w, pass.leave, ended, opened, grown⟩

namespace Clears

variable {r s t : Reader}

theorem of_passes_nil (h : r.Passes [] s) : r.Clears s :=
  ⟨[], h, Or.inl rfl⟩

/-- Two stretches without open braces are one. -/
theorem trans (h₁ : r.Clears s) (h₂ : s.Clears t) : r.Clears t := by
  obtain ⟨v, pass₁, closed₁⟩ := h₁
  obtain ⟨w, pass₂, closed₂⟩ := h₂
  refine ⟨v ++ w, pass₁.trans pass₂, ?_⟩
  rw [Token.openAfter_append]
  rcases closed₁ with closed₁ | ⟨ended, open₁⟩
  · rw [closed₁]
    exact closed₂
  · obtain ⟨rfl, ended'⟩ := pass₂.eq_nil ended
    obtain ⟨d, hd⟩ := Option.isSome_iff_exists.1 open₁
    exact Or.inr ⟨ended', by simp [hd]⟩

/-- A body is closed by what closes the rest of it. -/
theorem trans_closes (h₁ : r.Clears s) (h₂ : s.Closes t) : r.Closes t := by
  obtain ⟨v, pass₁, closed₁⟩ := h₁
  rcases h₂ with ⟨w, c, pass₂, closed₂, hc⟩ | ⟨w, pass₂, ended, open₂, grown⟩
  · rcases closed₁ with closed₁ | ⟨ended, -⟩
    · refine Or.inl ⟨v ++ w, c, ?_, ?_, hc⟩
      · rw [List.append_assoc]
        exact pass₁.trans pass₂
      · rw [Token.openAfter_append, closed₁]
        exact closed₂
    · exact absurd (pass₂.eq_nil ended).1 (by simp)
  · refine Or.inr ⟨v ++ w, pass₁.trans pass₂, ended, ?_, pass₁.length_faults.trans_lt grown⟩
    rw [Token.openAfter_append]
    rcases closed₁ with closed₁ | ⟨ended₁, open₁⟩
    · rw [closed₁]
      exact open₂
    · obtain ⟨rfl, -⟩ := pass₂.eq_nil ended₁
      obtain ⟨d, hd⟩ := Option.isSome_iff_exists.1 open₁
      simp [hd]

end Clears

/-- A body with the brace in front of it has no open braces. -/
theorem Closes.clears_of_leftBrace {r s t : Reader} {brace : Token} (h : s.Closes t)
    (pass : r.Passes [brace] s) (left : brace.kind = .leftBrace) : r.Clears t := by
  rcases h with ⟨v, c, pass', closed, hc⟩ | ⟨w, pass', ended, opened, -⟩
  · refine ⟨_, pass.trans pass', Or.inl ?_⟩
    rw [List.singleton_append, Token.openAfter_left left, Token.openAfter_append,
      Token.openAfter_add closed 1, Option.bind_some, Token.openAfter_right hc]
    rfl
  · refine ⟨_, pass.trans pass', Or.inr ⟨ended, ?_⟩⟩
    rw [List.singleton_append, Token.openAfter_left left]
    exact Token.openAfter_add_isSome opened 1

theorem clears_skipMember (r : Reader) : r.Clears r.skipMember := by
  obtain ⟨w, rest, split, length, closed⟩ := Token.split_memberLength 0 r.rest
  have pass := passes_advanceBy (Token.memberLength 0 r.rest) r
  have left := rest_advanceBy (Token.memberLength 0 r.rest) r
  rw [length] at pass left
  refine ⟨w, ?_, ?_⟩
  · rw [skipMember, length]
    simpa [split] using pass
  · rw [skipMember, length, left]
    simpa [split] using closed

theorem closes_skipBlock {r s : Reader} (h : r.Passes [] s)
    (grown : r.faults.length < s.faults.length) : r.Closes s.skipBlock := by
  have pass := fun n => h.trans (passes_advanceBy n s)
  unfold skipBlock
  cases found : Token.blockLength? 0 s.rest with
  | none =>
    refine Or.inr ⟨_, pass s.rest.length, by simp [rest_advanceBy], ?_, ?_⟩
    · rw [List.nil_append, List.take_length]
      exact Token.openAfter_of_blockLength?_eq_none found
    · exact grown.trans_le (passes_advanceBy s.rest.length s).length_faults
  | some n =>
    obtain ⟨v, c, more, split, rfl, hc, hv⟩ := Token.split_of_blockLength? found
    refine Or.inl ⟨v, c, ?_, hv, hc⟩
    have taken : s.rest.take (v.length + 1) = v ++ [c] := by
      rw [split, List.take_length_add_append]
      rfl
    have := pass (v.length + 1)
    rwa [taken] at this

end Reader
end ProtoAtlas
