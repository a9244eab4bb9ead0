/-
# How blocks nest

The body of a block holds nodes of certain kinds only: a message may hold members of all
kinds, an extend block only fields and groups (`NodeKind.inside`).  A block *fits* into `k`
levels if it has no members where `k` is zero, and otherwise members of these kinds that fit
into `k - 1` levels (`Node.Fits`).

A chain of blocks inside each other is then no longer than the levels its first one fits
into allow (`Node.Fits.chain`).
-/

import ProtoAtlas.Proofs.Schema.Node

namespace ProtoAtlas

/-! ### Blocks -/

/-- The kinds of nodes that have a body. -/
def NodeKind.isBlock : NodeKind → Bool
  | .service | .rpc => true
  | .member .group | .member .oneof | .member .message | .member .enum | .member .extend => true
  | _ => false

/-- The kinds of nodes that can stand in the body of a node. -/
def NodeKind.inside : NodeKind → List NodeKind
  | .service => [.rpc, .member .option]
  | .rpc => [.member .option]
  | .member .group | .member .message => (.option :: Member.bodyKinds).map .member
  | .member .oneof => [.member .field, .member .group, .member .option]
  | .member .enum => [.enumValue, .member .option, .member .reserved]
  | .member .extend => [.member .field, .member .group]
  | _ => []

namespace Node

/-- A node that has a body. -/
def IsBlock (n : Node) : Prop := n.kind.isBlock = true

/-- The nodes in the body of a block; the options in the brackets of a group are not. -/
def members : Node → List Node
  | .service s => s.members.map ServiceMember.node
  | .rpc r => r.options.map OptionDecl.node
  | .member (.group _ body) => body.map Node.member
  | .member (.oneof _ body) => body.map Node.member
  | .member (.message _ body) => body.map Node.member
  | .member (.enum e) => e.members.map EnumMember.node
  | .member (.extend _ body) => body.map Node.member
  | _ => []

/-- A node with at most `k` levels of members, each of a kind that can stand there. -/
def Fits : Nat → Node → Prop
  | 0, n => n.members = []
  | k + 1, n => ∀ c ∈ n.members, c.kind ∈ n.kind.inside ∧ Fits k c

/-- The members of a block that fits into `k` levels, with the kinds they can have. -/
def FitIn (kinds : List NodeKind) : Nat → List Node → Prop
  | 0, ns => ns = []
  | k + 1, ns => ∀ c ∈ ns, c.kind ∈ kinds ∧ Fits k c

theorem fits_iff_fitIn {k : Nat} {n : Node} : n.Fits k ↔ FitIn n.kind.inside k n.members := by
  cases k <;> exact Iff.rfl

theorem fitIn_nil (kinds : List NodeKind) (k : Nat) : FitIn kinds k [] := by
  cases k with
  | zero => rfl
  | succ k => exact fun c hc => absurd hc List.not_mem_nil

theorem Fits.succ {k : Nat} {n : Node} (h : n.Fits k) : n.Fits (k + 1) := by
  induction k generalizing n with
  | zero =>
    intro c hc
    rw [Fits] at h
    rw [h] at hc
    cases hc
  | succ k ih => exact fun c hc => ⟨(h c hc).1, ih (h c hc).2⟩

/-- A node without members fits everywhere. -/
theorem fits_of_members_eq_nil {n : Node} (h : n.members = []) (k : Nat) : n.Fits k := by
  rw [fits_iff_fitIn, h]
  exact fitIn_nil _ k

/-- The members of a node that fits have kinds that can stand there. -/
theorem Fits.kind_of_mem {k : Nat} {n c : Node} (h : n.Fits k) (hc : c ∈ n.members) :
    c.kind ∈ n.kind.inside := by
  cases k with
  | zero =>
    rw [Fits] at h
    rw [h] at hc
    cases hc
  | succ k => exact (h c hc).1

/-- The members of a node that fits do, too. -/
theorem Fits.of_mem {k : Nat} {n c : Node} (h : n.Fits k) (hc : c ∈ n.members) : c.Fits k := by
  cases k with
  | zero =>
    rw [Fits] at h
    rw [h] at hc
    cases hc
  | succ k => exact (h c hc).2.succ

/-- What is directly inside a node is in its body or has no body itself. -/
theorem mem_members_or {p n : Node} (h : n ∈ p.children) :
    n ∈ p.members ∨ ∃ o : OptionDecl, n = o.node := by
  have option : ∀ {os : List OptionDecl}, n ∈ os.map OptionDecl.node →
      ∃ o : OptionDecl, n = o.node := by
    intro os mem
    obtain ⟨o, -, rfl⟩ := List.mem_map.1 mem
    exact ⟨o, rfl⟩
  cases p with
  | service | rpc => exact Or.inl h
  | enumValue => exact Or.inr (option h)
  | syntaxLevel | edition | package | importing => cases h
  | member m =>
    cases m with
    | group head body =>
      rcases List.mem_append.1 h with h | h
      · exact Or.inr (option h)
      · exact Or.inl h
    | oneof | message | enum | extend => exact Or.inl h
    | field | map | extensions => exact Or.inr (option h)
    | option | reserved => cases h

/-- A block directly inside a node is in its body. -/
theorem IsBlock.mem_members {p n : Node} (block : n.IsBlock) (h : n ∈ p.children) :
    n ∈ p.members := by
  rcases mem_members_or h with h | ⟨o, rfl⟩
  · exact h
  · cases block

/-- **A chain of blocks** that starts with a node that fits into `k` has at most `k` blocks
more, and the last of so many is empty. -/
theorem Fits.chain {k : Nat} {first : Node} {rest : List Node} (fits : first.Fits k)
    (blocks : ∀ n ∈ rest, n.IsBlock) (nested : (first :: rest).IsChain fun p n => n ∈ p.children) :
    rest.length ≤ k ∧ ∀ n ∈ (first :: rest)[k]?, n.members = [] := by
  induction k generalizing first rest with
  | zero =>
    cases rest with
    | nil =>
      refine ⟨Nat.le_refl _, fun n hn => ?_⟩
      obtain rfl : first = n := by simpa using hn
      exact fits
    | cons next rest =>
      have inside :=
        (blocks next List.mem_cons_self).mem_members (List.isChain_cons_cons.1 nested).1
      rw [show first.members = [] from fits] at inside
      cases inside
  | succ k ih =>
    cases rest with
    | nil => exact ⟨Nat.zero_le _, by simp⟩
    | cons next rest =>
      obtain ⟨here, later⟩ := List.isChain_cons_cons.1 nested
      have inside := (blocks next List.mem_cons_self).mem_members here
      obtain ⟨short, empty⟩ := ih (fits next inside).2
        (fun n hn => blocks n (List.mem_cons_of_mem next hn)) later
      refine ⟨Nat.succ_le_succ short, ?_⟩
      rw [List.getElem?_cons_succ]
      exact empty

end Node

/-- If the nodes at the top of a file fit into `k` levels, all its nodes do. -/
theorem SchemaFile.HasNode.fits {f : SchemaFile} {k : Nat} (top : ∀ n ∈ f.children, n.Fits k)
    {n : Node} (h : f.HasNode n) : n.Fits k := by
  induction h with
  | top mem => exact top _ mem
  | inside _ mem ih =>
    rcases Node.mem_members_or mem with inside | ⟨o, rfl⟩
    · exact ih.of_mem inside
    · exact Node.fits_of_members_eq_nil rfl k

end ProtoAtlas
