/-
# Recovery ends where the braces say

A body is read up to the brace that closes it, whatever stands in it: faulty
members, unknown words, aggregates that break off, bodies that nest too deep.  The
brace is the one that counting finds (`Token.Matches`), so a fault in one body
never moves the end of another one.  Without such a brace the body runs to the end
of the file, and that is recorded as a fault.
-/

import ProtoAtlas.Proofs.Grammar.TracedRules

namespace ProtoAtlas

/-- What the body of a construct holds. -/
def BlockKind.Content : BlockKind → Type
  | .message => Member
  | .group => Member
  | .oneof => Member
  | .extend => Member
  | .enum => EnumMember
  | .service => ServiceMember
  | .rpc => OptionDecl

/-- The rule that reads the body of a construct after its opening brace, with at most
`fuel` bodies inside each other. -/
def Rule.blockBody (fuel : Nat) (name : Text) : (kind : BlockKind) → Rule (List kind.Content)
  | .message => memberBodyUpTo fuel .message ⟨.message, name⟩
  | .group => memberBodyUpTo fuel .message ⟨.group, name⟩
  | .oneof => memberBodyUpTo fuel .oneof ⟨.oneof, name⟩
  | .extend => memberBodyUpTo fuel .extend ⟨.extend, name⟩
  | .enum => body ⟨.enum, name⟩ enumMember
  | .service => body ⟨.service, name⟩ serviceMember
  | .rpc => body ⟨.rpc, name⟩ rpcMember

/-- The rule that reads a member of a construct, with at most `fuel` bodies inside each
other in it. -/
def Rule.blockMember (fuel : Nat) : (kind : BlockKind) → Rule (Option kind.Content)
  | .message => member (memberBodyUpTo fuel) .message
  | .group => member (memberBodyUpTo fuel) .message
  | .oneof => member (memberBodyUpTo fuel) .oneof
  | .extend => member (memberBodyUpTo fuel) .extend
  | .enum => enumMember
  | .service => serviceMember
  | .rpc => rpcMember

/-- The node of what the body of a construct holds. -/
def BlockKind.node : (kind : BlockKind) → kind.Content → Node
  | .message => Node.member
  | .group => Node.member
  | .oneof => Node.member
  | .extend => Node.member
  | .enum => EnumMember.node
  | .service => ServiceMember.node
  | .rpc => OptionDecl.node

/-- The kinds of nodes that the body of a construct can hold. -/
def BlockKind.inside : BlockKind → List NodeKind
  | .message => BodyKind.message.inside
  | .group => BodyKind.message.inside
  | .oneof => BodyKind.oneof.inside
  | .extend => BodyKind.extend.inside
  | .enum => NodeKind.inside (.member .enum)
  | .service => NodeKind.inside .service
  | .rpc => NodeKind.inside .rpc

theorem Rule.statement_blockMember (fuel : Nat) (kind : BlockKind) (d : Nat) :
    Statement 0 d kind.inside (blockMember fuel kind) kind.node := by
  have member := statement_member (Nat.zero_le _)
    (tracesBodies_memberBodyUpTo (d := d) (Nat.zero_le _) fuel (Nat.zero_le _))
  cases kind with
  | message => exact member .message
  | group => exact member .message
  | oneof => exact member .oneof
  | extend => exact member .extend
  | enum => exact statement_enumMember
  | service => exact statement_serviceMember (Nat.zero_le _)
  | rpc => exact statement_rpcMember

theorem Rule.tracedBody_blockBody (fuel : Nat) (name : Text) (kind : BlockKind) (d : Nat) :
    TracedBody 0 d kind.inside (blockBody fuel name kind) kind.node := by
  have bodies := tracesBodies_memberBodyUpTo (d := d) (Nat.zero_le _) fuel (Nat.zero_le _)
  cases kind with
  | message => exact bodies .message _
  | group => exact bodies .message _
  | oneof => exact bodies .oneof _
  | extend => exact bodies .extend _
  | enum => exact tracedBody_body (Nat.zero_le _) _ statement_enumMember
  | service => exact tracedBody_body (Nat.zero_le _) _ (statement_serviceMember (Nat.zero_le _))
  | rpc => exact tracedBody_body (Nat.zero_le _) _ statement_rpcMember

namespace Reader

/-- A reader somewhere in a stream of tokens, whatever it has noted. -/
structure Over (r : Reader) (stream : TokenStream) : Prop where
  tokens : r.taken.reverse ++ r.rest = stream.tokens
  finish : r.finish = stream.finish

theorem Over.lexed {r : Reader} {source : Text} (h : r.Over (TokenStream.ofText source)) :
    r.Lexed where
  rest := fun _ ht => Token.lexed_of_mem_tokens (h.tokens ▸ List.mem_append_right _ ht)
  finish := h.finish ▸ rfl

theorem Over.passes {r s : Reader} {stream : TokenStream} {w : List Token} (h : r.Over stream)
    (pass : r.Passes w s) : s.Over stream where
  tokens := by
    rw [← h.tokens, pass.taken, pass.rest, List.reverse_append, List.reverse_reverse,
      List.append_assoc]
  finish := pass.finish.trans h.finish

theorem over_ofStream (stream : TokenStream) : (ofStream stream).Over stream :=
  ⟨rfl, rfl⟩

end Reader

namespace Token

/-- The tokens from a given one on. -/
theorem between_append (front : List Token) (t : Token) (ts : List Token) {k : Nat}
    (h : front.length ≤ k) :
    between (front ++ t :: ts) front.length k = t :: ts.take (k - front.length) := by
  rw [between, List.drop_left, Nat.succ_sub h, List.take_succ_cons]

theorem excess_open {t : Token} (left : t.kind = .leftBrace) (ts : List Token) :
    excess (t :: ts) = 1 + excess ts := by
  rw [excess_cons, if_pos left]

/-- A body and the brace behind it: the braces around it match. -/
theorem matches_of_openAfter (front rest : List Token) {v : List Token} {t c : Token}
    (left : t.kind = .leftBrace) (right : c.kind = .rightBrace) (closed : openAfter 0 v = some 0) :
    Matches (front ++ t :: (v ++ c :: rest)) front.length (front.length + v.length + 1) where
  inside := by
    simp only [List.length_append, List.length_cons]
    omega
  notBefore := by omega
  level := by
    have size : front.length + v.length + 1 - front.length = v.length + 1 := by omega
    rw [between_append _ _ _ (by omega), excess_open left, size, List.take_length_add_append,
      excess_append, excess_eq closed, List.take_succ_cons, excess_cons, if_neg (by simp [right]),
      if_pos right]
    simp [excess]
  first := by
    intro k before notBefore
    rw [between_append _ _ _ notBefore, excess_open left,
      List.take_append_of_le_length (by omega)]
    have := excess_take_nonneg (w := v) (by rw [closed]; rfl) (k - front.length)
    omega

/-- A brace that nothing closes has no match. -/
theorem not_matches_of_openAfter (front : List Token) {w : List Token} {t : Token}
    (left : t.kind = .leftBrace) (opened : (openAfter 0 w).isSome) (m : Nat) :
    ¬Matches (front ++ t :: w) front.length m := by
  intro found
  have level := found.level
  rw [between_append _ _ _ found.notBefore, excess_open left] at level
  have := excess_take_nonneg opened (m - front.length)
  omega

end Token

/-- **A body ends at the brace that matches its opening brace.**  Take the tokens of
any text and any place behind an opening brace in them, with anything noted before.
Reading a body of any kind there, with any number of bodies open and any number still
allowed inside, gives a result.  If the brace has a match the reader stands right behind it, and
otherwise at the end of the file with a fault added. -/
theorem blockBody_ends_at_matching_brace (source : Text) (r : Reader)
    (standing : r.Over (TokenStream.ofText source)) (b : Nat) (behind : r.position = b + 1)
    (brace : Token) (at_b : (TokenStream.ofText source).tokens[b]? = some brace)
    (left : brace.kind = .leftBrace) (kind : BlockKind) (name : Text) (fuel : Nat) :
    ∃ body s, Rule.blockBody fuel name kind r = .ok body s ∧
      s.Over (TokenStream.ofText source) ∧ r.faults <:+ s.faults ∧
      (∀ m, Token.Matches (TokenStream.ofText source).tokens b m → s.position = m + 1) ∧
      ((∀ m, ¬Token.Matches (TokenStream.ofText source).tokens b m) →
        s.atEnd = true ∧ r.faults.length < s.faults.length) := by
  obtain ⟨body, s, run, filled⟩ :=
    Rule.tracedBody_blockBody fuel name kind r.depth r standing.lexed rfl
  -- The latest token taken is the brace, and `b` tokens were taken before it.
  obtain ⟨t, older, taken⟩ : ∃ t older, r.taken = t :: older := by
    cases h : r.taken with
    | nil =>
      rw [Reader.position, h] at behind
      cases behind
    | cons t older => exact ⟨t, older, rfl⟩
  have size : older.reverse.length = b := by
    rw [Reader.position, taken, List.length_cons] at behind
    rw [List.length_reverse]
    omega
  have tokens : (TokenStream.ofText source).tokens = older.reverse ++ t :: r.rest := by
    rw [← standing.tokens, taken, List.reverse_cons, List.append_assoc]
    rfl
  have same : t = brace := by
    rw [tokens, ← size, List.getElem?_append_right (Nat.le_refl _), Nat.sub_self] at at_b
    exact Option.some.inj at_b
  rw [← same] at left
  refine ⟨body, s, run, ?_⟩
  rw [tokens, ← size]
  rcases filled.read.closes with ⟨v, c, pass, closed, right⟩ | ⟨w, pass, ended, opened, grown⟩
  · have found := Token.matches_of_openAfter older.reverse s.rest left right closed
    have rest : r.rest = v ++ c :: s.rest := by
      rw [pass.rest, List.append_assoc]
      rfl
    rw [← rest] at found
    refine ⟨standing.passes pass, pass.faults, fun m hm => ?_, fun none => absurd found (none _)⟩
    rw [hm.unique found, pass.position, behind, size, List.length_append, List.length_singleton]
    omega
  · have rest : r.rest = w := by rw [pass.rest, ended, List.append_nil]
    have none := Token.not_matches_of_openAfter older.reverse left opened
    rw [← rest] at none
    refine ⟨standing.passes pass, pass.faults, fun m hm => absurd hm (none m), fun _ => ⟨?_, grown⟩⟩
    rw [Reader.atEnd, ended]
    rfl

/-- A body in which a oneof without a name breaks off a member, an aggregate holds
braces, and another closing brace follows. -/
def brokenBody : Text :=
  "message A \x7b oneof \x7b x = \x7d option o = \x7b \x7b y \x7d \x7d ; ? ] \x7d \x7d enum"

/-- The body is left behind its own closing brace, with one more brace to come. -/
theorem brokenBody_ends_at_matching_brace :
    ∃ body s, Rule.blockBody 7 "A" .message
        ((Reader.ofStream (TokenStream.ofText brokenBody)).advanceBy 3) = .ok body s ∧
      s.position = 19 := by
  have standing := (Reader.over_ofStream (TokenStream.ofText brokenBody)).passes
    (Reader.passes_advanceBy 3 _)
  obtain ⟨brace, at_b, left⟩ : ∃ brace, (TokenStream.ofText brokenBody).tokens[2]? = some brace ∧
      brace.kind = .leftBrace := Option.map_eq_some_iff.1 (by decide +kernel)
  obtain ⟨body, s, run, -, -, found, -⟩ := blockBody_ends_at_matching_brace brokenBody _ standing 2
    (by decide +kernel) brace at_b left .message "A" 7
  exact ⟨body, s, run, found 18 (by decide +kernel)⟩

end ProtoAtlas
