/-
# The limit on nesting

Blocks nest at most `maxNesting + 1` deep in the tree of any text, since the body of the
last one is passed over (`Node.Fits`).  That is a fault with a cause of its own.  It never
arises in a text where at most `maxNesting` braces are open at once, as each body that is
open has an open brace.

Recovery is what endangers this: a fault ends rules from within, and a body that was not
left then would show as a fault much later.  But every rule leaves the bodies it enters,
whether it gives a result or stops (`Rule.Part.depth_last`).  The invariant that carries the
proof is then `Reader.HasRoom`: no more bodies are open than braces.  Whatever is taken
between two members has its braces closed, or runs to the end of the file, so the level of
braces does not fall (`Reader.Clears.level_le`).
-/

import Mathlib.Data.List.Chain
import ProtoAtlas.Proofs.Grammar.Total

namespace ProtoAtlas

/-! ### Levels of braces -/

/-- How many braces are open behind some tokens, with `depth` of them open in front.  A
closing brace closes the latest open one, if there is one. -/
def Token.openBraces (depth : Nat) (ts : List Token) : Nat :=
  ts.foldl (fun d t =>
    if t.kind = .leftBrace then d + 1 else if t.kind = .rightBrace then d - 1 else d) depth

theorem Token.openBraces_append (depth : Nat) (v w : List Token) :
    openBraces depth (v ++ w) = openBraces (openBraces depth v) w :=
  List.foldl_append

theorem Token.openBraces_left {t : Token} (left : t.kind = .leftBrace) (depth : Nat) :
    openBraces depth [t] = depth + 1 :=
  if_pos left

/-- No more braces are open than are there. -/
theorem Token.openBraces_le (depth : Nat) (ts : List Token) :
    openBraces depth ts ≤ depth + ts.countP (·.kind = .leftBrace) := by
  unfold openBraces
  induction ts generalizing depth with
  | nil => exact Nat.le_refl _
  | cons t ts ih =>
    rw [List.foldl_cons, List.countP_cons]
    refine (ih _).trans ?_
    by_cases left : t.kind = .leftBrace
    · simp only [left, if_true, decide_true]
      omega
    · simp only [left, if_false, decide_false]
      split <;> simp

/-- Where no brace closes one in front, the braces are counted alike. -/
theorem Token.openBraces_of_openAfter {depth stop : Nat} {w : List Token}
    (h : openAfter depth w = some stop) : openBraces depth w = stop := by
  unfold openBraces
  fun_induction openAfter depth w with
  | case1 => exact Option.some.inj h
  | case2 => cases h
  | case3 t ts right d ih => simpa [right] using ih h
  | case4 depth t ts _ left ih => simpa [left] using ih h
  | case5 depth t ts h₁ h₂ ih => simpa [h₁, h₂] using ih h

namespace Reader

variable {r s : Reader}

/-- How many braces are open at a reader. -/
def level (r : Reader) : Nat := Token.openBraces 0 r.taken.reverse

theorem Passes.level {w : List Token} (pass : r.Passes w s) :
    s.level = Token.openBraces r.level w := by
  rw [Reader.level, pass.taken, List.reverse_append, List.reverse_reverse,
    Token.openBraces_append]
  rfl

/-- Over tokens whose braces are closed in them the level does not fall. -/
theorem Clears.level_le (h : r.Clears s) : r.level ≤ s.level := by
  obtain ⟨w, pass, closed⟩ := h
  obtain ⟨d, opened⟩ : ∃ d, Token.openAfter 0 w = some d := by
    rcases closed with closed | ⟨-, opened⟩
    · exact ⟨0, closed⟩
    · exact Option.isSome_iff_exists.1 opened
  have above := Token.openAfter_add opened r.level
  rw [Nat.zero_add] at above
  rw [pass.level, Token.openBraces_of_openAfter above]
  exact Nat.le_add_left _ _

/-- From here on never more than `maxNesting` braces are open. -/
def Shallow (r : Reader) : Prop :=
  ∀ v, v <+: r.rest → Token.openBraces r.level v ≤ maxNesting

theorem Shallow.level_le (h : r.Shallow) : r.level ≤ maxNesting :=
  h [] List.nil_prefix

theorem Shallow.passes {w : List Token} (h : r.Shallow) (pass : r.Passes w s) : s.Shallow := by
  intro v sub
  rw [pass.level, ← Token.openBraces_append]
  refine h _ ?_
  rw [pass.rest]
  exact (List.prefix_append_right_inj w).2 sub

theorem Shallow.clears (h : r.Shallow) (clears : r.Clears s) : s.Shallow := by
  obtain ⟨w, pass, -⟩ := clears
  exact h.passes pass

/-- No more bodies are open than braces, and never too many braces are open. -/
structure HasRoom (r : Reader) : Prop where
  shallow : r.Shallow
  depth_le : r.depth ≤ r.level

namespace HasRoom

theorem clears (h : r.HasRoom) (clears : r.Clears s) : s.HasRoom where
  shallow := h.shallow.clears clears
  depth_le := by
    have level := clears.level_le
    obtain ⟨w, pass, -⟩ := clears
    exact pass.depth ▸ h.depth_le.trans level

/-- Behind a brace there is one body less than braces. -/
theorem depth_lt_level (h : r.HasRoom) (goes : r.GoesTo .leftBrace s) :
    s.depth < s.level ∧ s.Shallow := by
  obtain @⟨w, given, m, brace, goes, pass, left⟩ := goes
  have there := h.clears goes.clears
  refine ⟨?_, there.shallow.passes pass⟩
  rw [pass.depth, pass.level, Token.openBraces_left left]
  exact Nat.lt_succ_of_le there.depth_le

/-- Behind a brace a body can be entered. -/
theorem depth_lt (h : r.HasRoom) (goes : r.GoesTo .leftBrace s) : s.depth < maxNesting :=
  (h.depth_lt_level goes).1.trans_le (h.depth_lt_level goes).2.level_le

theorem enter (h : r.HasRoom) (goes : r.GoesTo .leftBrace s) : s.enter.HasRoom where
  shallow := by
    have shallow := (h.depth_lt_level goes).2
    exact shallow
  depth_le := (h.depth_lt_level goes).1

end HasRoom

/-! ### Faults that are not about depth -/

/-- No fault is recorded for the depth of a body. -/
def NoneTooDeep (r : Reader) : Prop :=
  ∀ f ∈ r.faults, ∀ block, f.cause ≠ .tooDeep block

theorem NoneTooDeep.congr (h : r.NoneTooDeep) (same : s.faults = r.faults) : s.NoneTooDeep := by
  unfold NoneTooDeep
  rw [same]
  exact h

theorem NoneTooDeep.record (h : r.NoneTooDeep) {f : SyntaxFault}
    (cause : ∀ block, f.cause ≠ .tooDeep block) : (r.record f).NoneTooDeep :=
  List.forall_mem_cons.2 ⟨cause, h⟩

theorem Stumbles.noneTooDeep {f : SyntaxFault} (h : r.Stumbles f s) (none : r.NoneTooDeep) :
    (s.record f).NoneTooDeep :=
  (none.congr h.faults).record h.cause

/-- **No body is too deep** where there is room for it. -/
theorem MembersRead.noneTooDeep (h : MembersRead maxNesting r s) (room : r.HasRoom)
    (none : r.NoneTooDeep) : s.NoneTooDeep := by
  induction h with
  | closed => exact none.congr (faults_advance _)
  | unclosed => exact none.record (by simp)
  | plain _ goes _ ih => exact ih (room.clears goes.clears) (none.congr goes.faults)
  | block _ goes _ inner _ ih tail =>
    exact tail (room.clears (goes.clears_of_closes inner.closes.leave))
      (ih (room.enter goes) (none.congr goes.faults))
  | tooDeep _ goes full => exact absurd full (Nat.not_le.2 (room.depth_lt goes))
  | faulty _ stumbles _ ih =>
    exact ih (room.clears stumbles.clears_skipMember)
      ((stumbles.noneTooDeep none).congr (faults_advanceBy _ _))

theorem Finishes.noneTooDeep (h : r.Finishes maxNesting s) (room : r.HasRoom)
    (none : r.NoneTooDeep) : s.NoneTooDeep := by
  cases h with
  | plain goes => exact none.congr goes.faults
  | block goes body =>
    cases body with
    | entered _ inner => exact inner.noneTooDeep (room.enter goes) (none.congr goes.faults)
    | tooDeep full => exact absurd full (Nat.not_le.2 (room.depth_lt goes))

theorem FileRead.noneTooDeep (h : FileRead maxNesting r s) (top : r.depth = 0)
    (shallow : r.Shallow) (none : r.NoneTooDeep) : s.NoneTooDeep := by
  induction h with
  | done => exact none
  | statement finishes _ ih =>
    -- However many braces are open in front of it, no body is.
    obtain ⟨w, pass, -⟩ := finishes.exists_passes
    exact ih (pass.depth.trans top) (shallow.passes pass)
      (finishes.noneTooDeep ⟨shallow, top ▸ Nat.zero_le _⟩ none)
  | @faulty r s t f stumbles _ ih =>
    -- A statement is passed over up to any brace, so the level may fall here.
    obtain ⟨w, pass⟩ := (stumbles.lays (Token.statementLength s.rest)).exists_passes
    exact ih (pass.depth.trans top) (shallow.passes pass)
      ((stumbles.noneTooDeep none).congr (faults_advanceBy _ _))

end Reader

/-! ### Chains of blocks -/

/-- Blocks of a file, each directly inside the one before it. -/
structure SchemaFile.BlockChain (f : SchemaFile) (chain : List Node) : Prop where
  first : ∀ n ∈ chain.head?, f.HasNode n
  blocks : ∀ n ∈ chain, n.IsBlock
  nested : chain.IsChain fun p n => n ∈ p.children

theorem SchemaFile.BlockChain.limited {uri source : Text} {chain : List Node}
    (h : (SchemaFile.parse uri source).BlockChain chain) :
    chain.length ≤ maxNesting + 1 ∧ ∀ n ∈ chain[maxNesting]?, n.members = [] := by
  cases chain with
  | nil => exact ⟨Nat.zero_le _, by simp⟩
  | cons first rest =>
    have fits := (h.first first rfl).fits_parse
    obtain ⟨short, empty⟩ :=
      fits.chain (fun n hn => h.blocks n (List.mem_cons_of_mem first hn)) h.nested
    exact ⟨Nat.succ_le_succ short, empty⟩

/-- A node, the first node in it, the first one in that, and so on `k` times. -/
def Node.spine : Nat → Node → List Node
  | 0, n => [n]
  | k + 1, n => n :: n.children.head?.elim [] (spine k)

theorem Node.head?_spine (k : Nat) (n : Node) : (n.spine k).head? = some n := by
  cases k <;> rfl

theorem Node.isChain_spine (k : Nat) (n : Node) :
    (n.spine k).IsChain fun p c => c ∈ p.children := by
  induction k generalizing n with
  | zero => exact List.isChain_singleton n
  | succ k ih =>
    rw [spine]
    cases first : n.children.head? with
    | none => exact List.isChain_singleton n
    | some c =>
      refine List.isChain_cons.2 ⟨fun d hd => ?_, ih c⟩
      obtain rfl : c = d := Option.some.inj ((c.head?_spine k).symm.trans hd)
      exact List.mem_of_head? first

/-! ### Open bodies -/

/-- The reader that a rule leaves, whether it gives a result or stops. -/
def Rule.last {α : Type} (x : Rule α) (r : Reader) : Reader :=
  match x r with
  | .ok _ s => s
  | .error _ s => s

/-- **Every rule leaves the bodies it enters**, also when it stops. -/
theorem Rule.Part.depth_last {α : Type} {x : Rule α} (h : Part x) {r : Reader} (hr : r.Lexed) :
    (x.last r).depth = r.depth := by
  unfold last
  rcases h.passes hr with ⟨a, s, w, run, pass⟩ | ⟨f, s, w, run, pass⟩
  · rw [run]
    exact pass.depth
  · rw [run]
    exact pass.depth

/-- **The limit on nesting.**  Take any text.

* A chain of blocks in its tree, each directly inside the one before, has at most
  `maxNesting + 1` blocks, and the body of the last of so many is empty.
* From any place in it, with any number of bodies open and anything noted before, every rule
  of the grammar, the rules for bodies of all kinds among them, ends with as many bodies open
  as it started with, whether it gives a result or stops.
* If never more than `maxNesting` braces are open in it, no fault is about the depth of a
  body. -/
theorem nesting_is_limited (uri source : Text) :
    (∀ chain, (SchemaFile.parse uri source).BlockChain chain →
      chain.length ≤ maxNesting + 1 ∧ ∀ n ∈ chain[maxNesting]?, n.members = []) ∧
    (∀ r : Reader, r.Over (TokenStream.ofText source) → ∀ (α : Type) (x : Rule α), Rule.Part x →
      (x.last r).depth = r.depth) ∧
    ((∀ ts, ts <+: (TokenStream.ofText source).tokens → Token.openBraces 0 ts ≤ maxNesting) →
      ∀ f ∈ (SchemaFile.parse uri source).faults, ∀ block, f.cause ≠ .tooDeep block) := by
  refine ⟨fun chain h => h.limited, fun r hr _ x part => part.depth_last hr.lexed,
    fun shallow f hf => ?_⟩
  obtain ⟨last, gives, -, faults⟩ := SchemaFile.exists_gives uri source
  rw [faults, List.mem_reverse] at hf
  exact gives.way.noneTooDeep rfl shallow (List.forall_mem_nil _) f hf

/-! ### At the limit -/

/-- As many messages inside each other as there may be, around a text. -/
def deepText (inner : Text) : Text :=
  (List.replicate maxNesting (Text.ofString "message M \x7b ")).flatten ++ inner ++
    (List.replicate maxNesting (Text.ofString "\x7d ")).flatten

/-- One block more, with an option in brackets and a field that is passed over. -/
def beyondLimit : Text := deepText "group G = 1 [a = b] \x7b int32 x = 1; \x7d"

/-- No block more, but faults in front of the blocks and in them. -/
def atLimit : Text := "\x7d x; " ++ deepText "int32 = 1;"

/-- Behind the first opening brace, but with only one more body to be entered. -/
def atLimit.body : Reader :=
  { (Reader.ofStream (TokenStream.ofText atLimit)).advanceBy 6 with depth := maxNesting - 1 }

theorem exists_chain_beyondLimit :
    ∃ chain, (SchemaFile.parse "a.proto" beyondLimit).BlockChain chain ∧
      chain.map (fun n => (n.kind, n.children.length)) =
        List.replicate maxNesting (.member .message, 1) ++ [(.member .group, 1)] := by
  have kinds : (SchemaFile.parse "a.proto" beyondLimit).children.map
      (fun n => (n.spine maxNesting).map fun c => (c.kind, c.children.length)) =
      [List.replicate maxNesting (.member .message, 1) ++ [(.member .group, 1)]] := by
    decide +kernel
  obtain ⟨n, top, kinds⟩ := List.map_eq_singleton_iff.1 kinds
  refine ⟨n.spine maxNesting, ⟨fun c hc => ?_, fun c hc => ?_, n.isChain_spine _⟩, kinds⟩
  · obtain rfl : n = c := Option.some.inj ((n.head?_spine _).symm.trans hc)
    exact .top (by rw [top]; exact List.mem_singleton_self n)
  · have mem := List.mem_map_of_mem hc (f := fun n => (n.kind, n.children.length))
    rw [kinds, List.mem_append, List.mem_replicate, List.mem_singleton] at mem
    unfold Node.IsBlock
    rcases mem with ⟨-, same⟩ | same
    · rw [(Prod.mk.inj same).1]
      rfl
    · rw [(Prod.mk.inj same).1]
      rfl

theorem atLimit_shallow {ts : List Token} (h : ts <+: (TokenStream.ofText atLimit).tokens) :
    Token.openBraces 0 ts ≤ maxNesting := by
  have braces : (TokenStream.ofText atLimit).tokens.countP (·.kind = .leftBrace) = maxNesting := by
    decide +kernel
  calc Token.openBraces 0 ts
      ≤ 0 + ts.countP (·.kind = .leftBrace) := Token.openBraces_le 0 ts
    _ = ts.countP (·.kind = .leftBrace) := Nat.zero_add _
    _ ≤ (TokenStream.ofText atLimit).tokens.countP (·.kind = .leftBrace) := h.sublist.countP_le
    _ = maxNesting := braces

theorem nesting_at_the_limit :
    (∃ chain, (SchemaFile.parse "a.proto" beyondLimit).BlockChain chain ∧
      chain.length = maxNesting + 1 ∧ ∃ n ∈ chain[maxNesting]?,
        n.kind = .member .group ∧ n.children.length = 1 ∧ n.members = []) ∧
    (atLimit.body.Over (TokenStream.ofText atLimit) ∧
      atLimit.body.faults.length < ((Rule.blockBody maxNesting "M" .message).last
        atLimit.body).faults.length ∧
      ((Rule.blockBody maxNesting "M" .message).last atLimit.body).depth = maxNesting - 1) ∧
    (∀ ts, ts <+: (TokenStream.ofText atLimit).tokens → Token.openBraces 0 ts ≤ maxNesting) ∧
    ∃ f ∈ (SchemaFile.parse "a.proto" atLimit).faults, ∀ block, f.cause ≠ .tooDeep block := by
  obtain ⟨chains, -, -⟩ := nesting_is_limited "a.proto" beyondLimit
  obtain ⟨-, rounds, none⟩ := nesting_is_limited "a.proto" atLimit
  have standing : atLimit.body.Over (TokenStream.ofText atLimit) := by
    obtain ⟨tokens, finish⟩ := (Reader.over_ofStream (TokenStream.ofText atLimit)).passes
      (Reader.passes_advanceBy 6 _)
    exact ⟨tokens, finish⟩
  refine ⟨?_, ⟨standing, by decide +kernel, ?_⟩, fun ts => atLimit_shallow, ?_⟩
  · obtain ⟨chain, blocks, kinds⟩ := exists_chain_beyondLimit
    have last := congrArg (·[maxNesting]?) kinds
    simp only [List.getElem?_map, List.getElem?_append_right, List.length_replicate, le_refl,
      Nat.sub_self, List.getElem?_cons_zero, Option.map_eq_some_iff] at last
    obtain ⟨n, hn, same⟩ := last
    obtain ⟨kind, children⟩ := Prod.mk.inj same
    refine ⟨chain, blocks, ?_, n, hn, kind, children, (chains chain blocks).2 n hn⟩
    rw [← List.length_map, kinds, List.length_append, List.length_replicate]
    rfl
  · exact rounds atLimit.body standing _ _ (.blockBody maxNesting "M" .message)
  · have some : (SchemaFile.parse "a.proto" atLimit).faults ≠ [] := by decide +kernel
    obtain ⟨f, hf⟩ := List.exists_mem_of_ne_nil _ some
    exact ⟨f, hf, none (fun ts => atLimit_shallow) f hf⟩

end ProtoAtlas
