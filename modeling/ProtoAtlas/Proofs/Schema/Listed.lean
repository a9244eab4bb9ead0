/-
# All nodes of a schema tree

A node is listed with the scope it stands in, and all that is inside it comes behind it, in
source order (`Node.listed`).  Messages, groups, enums and services are scopes of what is
inside them; everything else leaves the scope as it is, so that the members of a oneof or
of an extend block are in the scope around it (`Node.innerScope`).

A file is listed in the scope of its package.  The list holds all its nodes, each as often
as the file has it (`SchemaFile.mem_nodes_iff`).
-/

import ProtoAtlas.Proofs.Schema.Node
import ProtoAtlas.Proofs.Schema.Reached

namespace ProtoAtlas
namespace Node

/-- The scope of the nodes directly inside a node that stands in a scope. -/
def innerScope (scope : Text) : Node → Text
  | .service s => qualify scope s.name.text
  | .member (.enum e) => qualify scope e.name.text
  | .member m => m.innerScope scope
  | _ => scope

/-! ### Nodes inside nodes -/

/-- The node of an element is smaller than the list, but for the constructors it has on top. -/
theorem sizeOf_lt_of_mem_map {α : Type} [SizeOf α] {node : α → Node} {l : List α} {c : Node}
    (small : ∀ a, sizeOf (node a) ≤ sizeOf a + 2) (h : c ∈ l.map node) :
    sizeOf c < sizeOf l + 2 := by
  obtain ⟨a, ha, rfl⟩ := List.mem_map.1 h
  exact Nat.lt_of_le_of_lt (small a) (Nat.add_lt_add_right (List.sizeOf_lt_of_mem ha) 2)

/-- **A node is smaller than the one around it.** -/
theorem sizeOf_lt_of_mem_children {n c : Node} (h : c ∈ n.children) : sizeOf c < sizeOf n := by
  have option : ∀ o : OptionDecl, sizeOf o.node ≤ sizeOf o + 2 := fun o => by
    simp only [OptionDecl.node, member.sizeOf_spec, Member.option.sizeOf_spec]
    omega
  have member : ∀ m : Member, sizeOf (Node.member m) ≤ sizeOf m + 2 := fun m => by
    rw [member.sizeOf_spec]
    omega
  have procedure : ∀ m : ServiceMember, sizeOf m.node ≤ sizeOf m + 2 := fun m => by
    cases m with
    | rpc r => simp [ServiceMember.node]
    | option o => simp [ServiceMember.node, OptionDecl.node]; omega
  have value : ∀ m : EnumMember, sizeOf m.node ≤ sizeOf m + 2 := fun m => by
    cases m with
    | value v => simp [EnumMember.node]
    | option o => simp [EnumMember.node, OptionDecl.node]; omega
    | reserved r => simp [EnumMember.node]; omega
  cases n with
  | service s =>
    have small := sizeOf_lt_of_mem_map procedure h
    cases s
    simp at small ⊢
    omega
  | rpc d | enumValue d =>
    have small := sizeOf_lt_of_mem_map option h
    cases d
    simp at small ⊢
    omega
  | member m =>
    cases m with
    | field d | map d | extensions d =>
      have small := sizeOf_lt_of_mem_map option h
      cases d
      simp at small ⊢
      omega
    | enum e =>
      have small := sizeOf_lt_of_mem_map value h
      cases e
      simp at small ⊢
      omega
    | group head body =>
      rcases List.mem_append.1 h with h | h
      · have small := sizeOf_lt_of_mem_map option h
        cases head
        simp at small ⊢
        omega
      · have small := sizeOf_lt_of_mem_map member h
        simp
        omega
    | oneof | message | extend =>
      have small := sizeOf_lt_of_mem_map member h
      simp
      omega
    | option | reserved => cases h
  | syntaxLevel | edition | package | importing => cases h

/-- What holds of a node whenever it holds of the nodes inside it holds of all. -/
theorem children_induction {P : Node → Prop} (step : ∀ n, (∀ c ∈ n.children, P c) → P n)
    (n : Node) : P n :=
  step n fun c _ => children_induction step c
termination_by n
decreasing_by exact sizeOf_lt_of_mem_children ‹_›

/-- A node in its scope, and then all that is inside it. -/
def listed (scope : Text) (n : Node) : List (Text × Node) :=
  (scope, n) :: n.children.attach.flatMap fun c => c.1.listed (n.innerScope scope)
termination_by n
decreasing_by exact sizeOf_lt_of_mem_children c.2

theorem listed_eq (scope : Text) (n : Node) :
    n.listed scope = (scope, n) :: n.children.flatMap (listed (n.innerScope scope)) := by
  rw [listed]
  conv_rhs => rw [← List.attach_map_subtype_val n.children, List.flatMap_map]

/-- What is collected from all listed nodes is collected from the node and from those
inside it. -/
theorem flatMap_listed {α : Type} (collect : Text × Node → List α) (scope : Text) (n : Node) :
    (n.listed scope).flatMap collect = collect (scope, n) ++
      n.children.flatMap fun c => (c.listed (n.innerScope scope)).flatMap collect := by
  rw [listed_eq, List.flatMap_cons, List.flatMap_assoc]

theorem mem_listed_self (scope : Text) (n : Node) : (scope, n) ∈ n.listed scope := by
  rw [listed_eq]
  exact List.mem_cons_self

/-- With a node those directly inside it are listed. -/
theorem mem_listed_of_mem_children {scope scope' : Text} {n p c : Node}
    (h : (scope', p) ∈ n.listed scope) (hc : c ∈ p.children) :
    (p.innerScope scope', c) ∈ n.listed scope := by
  induction n using children_induction generalizing scope with
  | step n ih =>
    rw [listed_eq] at h ⊢
    refine List.mem_cons_of_mem _ (List.mem_flatMap.2 ?_)
    rcases List.mem_cons.1 h with same | h
    · obtain ⟨rfl, rfl⟩ := Prod.mk.inj same
      exact ⟨c, hc, c.mem_listed_self _⟩
    · obtain ⟨d, hd, h⟩ := List.mem_flatMap.1 h
      exact ⟨d, hd, ih d hd h⟩

/-- A node and all that is inside it. -/
def within (n : Node) : List Node := (n.listed []).map (·.2)

/-- The scope has no part in which nodes are listed. -/
theorem map_listed (scope : Text) (n : Node) : (n.listed scope).map (·.2) = n.within := by
  have same : ∀ scope scope', (n.listed scope).map (·.2) = (n.listed scope').map (·.2) := by
    induction n using children_induction with
    | step n ih =>
      intro scope scope'
      rw [listed_eq, listed_eq scope', List.map_cons, List.map_cons, List.map_flatMap,
        List.map_flatMap]
      exact congrArg (n :: ·) (List.flatMap_congr fun c hc => ih c hc _ _)
  exact same scope []

theorem within_eq (n : Node) : n.within = n :: n.children.flatMap within := by
  rw [within, listed_eq, List.map_cons, List.map_flatMap]
  exact congrArg (n :: ·) (List.flatMap_congr fun c _ => map_listed _ c)

/-- The comments of a node and of all that is inside it. -/
def comments (n : Node) : List Text := n.within.filterMap (·.info.comments)

theorem comments_eq (n : Node) :
    n.comments = n.info.comments.toList ++ n.children.flatMap comments := by
  rw [comments, within_eq, List.filterMap_cons, List.filterMap_flatMap]
  cases n.info.comments <;> rfl

end Node

namespace SchemaFile

/-- All nodes of a file, in their scopes and in source order. -/
def listed (f : SchemaFile) : List (Text × Node) :=
  f.children.flatMap (Node.listed f.packageName)

/-- All nodes of a file in source order. -/
def nodes (f : SchemaFile) : List Node := f.listed.map (·.2)

theorem nodes_eq (f : SchemaFile) : f.nodes = f.children.flatMap Node.within := by
  rw [nodes, listed, List.map_flatMap]
  exact List.flatMap_congr fun n _ => n.map_listed f.packageName

theorem HasNode.of_mem_listed {f : SchemaFile} {n : Node} (has : f.HasNode n) {scope : Text}
    {p : Text × Node} (h : p ∈ n.listed scope) : f.HasNode p.2 := by
  induction n using Node.children_induction generalizing scope with
  | step n ih =>
    rw [Node.listed_eq] at h
    rcases List.mem_cons.1 h with rfl | h
    · exact has
    · obtain ⟨c, hc, h⟩ := List.mem_flatMap.1 h
      exact ih c hc (.inside has hc) h

theorem hasNode_of_mem_listed {f : SchemaFile} {p : Text × Node} (h : p ∈ f.listed) :
    f.HasNode p.2 := by
  obtain ⟨n, hn, h⟩ := List.mem_flatMap.1 h
  exact HasNode.of_mem_listed (.top hn) h

theorem exists_mem_listed_of_hasNode {f : SchemaFile} {n : Node} (h : f.HasNode n) :
    ∃ scope, (scope, n) ∈ f.listed := by
  induction h with
  | @top n mem =>
    exact ⟨f.packageName, List.mem_flatMap.2 ⟨n, mem, n.mem_listed_self f.packageName⟩⟩
  | @inside p n _ mem ih =>
    obtain ⟨scope, hp⟩ := ih
    obtain ⟨top, htop, hp⟩ := List.mem_flatMap.1 hp
    exact ⟨p.innerScope scope,
      List.mem_flatMap.2 ⟨top, htop, Node.mem_listed_of_mem_children hp mem⟩⟩

/-- **The nodes of a file are listed**, and nothing else is. -/
theorem mem_nodes_iff {f : SchemaFile} {n : Node} : n ∈ f.nodes ↔ f.HasNode n := by
  constructor
  · intro h
    obtain ⟨p, hp, rfl⟩ := List.mem_map.1 h
    exact hasNode_of_mem_listed hp
  · intro h
    obtain ⟨scope, listed⟩ := exists_mem_listed_of_hasNode h
    exact List.mem_map.2 ⟨(scope, n), listed, rfl⟩

end SchemaFile
end ProtoAtlas
