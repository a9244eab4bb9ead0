/-
# The nodes of a schema tree

All declarations of a schema tree are seen as nodes of one kind or another, each with a
span, with the names and types that are written in it, and with the nodes directly inside
it.  The nodes inside come in source order (`Node.children`), and also in one list for
each of their kinds, as a reader of the tree asks for them (`Node.childLists`).

If the children follow each other, so do the nodes of each list, and no two nodes of the
lists overlap, whichever lists they come from (`Node.arranged_childLists`): different
lists hold nodes of different kinds, so each node stands at most once in all of them.
-/

import Mathlib.Data.List.Forall2
import Mathlib.Data.List.Pairwise
import ProtoAtlas.Proofs.Source.Placed
import ProtoAtlas.Schema.Walk

namespace ProtoAtlas

/-- A declaration of a schema tree below the file. -/
inductive Node where
  | syntaxLevel (d : SyntaxDecl)
  | edition (d : EditionDecl)
  | package (d : PackageDecl)
  | importing (d : ImportDecl)
  | service (s : Service)
  | rpc (r : Rpc)
  | enumValue (v : EnumValue)
  | member (m : Member)

/-- The kinds of nodes. -/
inductive NodeKind where
  | syntaxLevel
  | edition
  | package
  | importing
  | service
  | rpc
  | enumValue
  | member (kind : MemberKind)
  deriving DecidableEq

/-- How a name is written: as one identifier, as identifiers and dots, or otherwise. -/
inductive Spelling where
  | word
  | path
  | other
  deriving DecidableEq

/-- Place and comments of a member. -/
def Member.info : Member → NodeInfo
  | .field f => f.info
  | .map m => m.info
  | .group h _ => h.info
  | .oneof h _ => h.info
  | .message h _ => h.info
  | .enum e => e.info
  | .extend h _ => h.info
  | .option o => o.info
  | .reserved r => r.info
  | .extensions e => e.info

/-- The names and types that are written in a member, its body apart, in source order. -/
def Member.spellings : Member → List (Spelling × Name)
  | .field f => [(.path, f.type), (.word, f.name)]
  | .map m => [(.word, m.key), (.path, m.value), (.word, m.name)]
  | .group h _ => [(.word, h.name)]
  | .oneof h _ => [(.word, h.name)]
  | .message h _ => [(.word, h.name)]
  | .enum e => [(.word, e.name)]
  | .extend h _ => [(.path, h.target)]
  | .option o => [(.other, o.name)]
  | .reserved _ => []
  | .extensions _ => []

/-- The node of an option. -/
def OptionDecl.node (o : OptionDecl) : Node := .member (.option o)

/-- The node of a member of an enum. -/
def EnumMember.node : EnumMember → Node
  | .value v => .enumValue v
  | .option o => o.node
  | .reserved r => .member (.reserved r)

/-- The node of a member of a service. -/
def ServiceMember.node : ServiceMember → Node
  | .rpc r => .rpc r
  | .option o => o.node

/-- The node of an item of a file. -/
def Item.node : Item → Node
  | .syntaxLevel d => .syntaxLevel d
  | .edition d => .edition d
  | .package d => .package d
  | .importing d => .importing d
  | .service s => .service s
  | .member m => .member m

namespace Node

/-- The kind of a node. -/
def kind : Node → NodeKind
  | .syntaxLevel _ => .syntaxLevel
  | .edition _ => .edition
  | .package _ => .package
  | .importing _ => .importing
  | .service _ => .service
  | .rpc _ => .rpc
  | .enumValue _ => .enumValue
  | .member m => .member m.kind

/-- Place and comments of a node. -/
def info : Node → NodeInfo
  | .syntaxLevel d => d.info
  | .edition d => d.info
  | .package d => d.info
  | .importing d => d.info
  | .service s => s.info
  | .rpc r => r.info
  | .enumValue v => v.info
  | .member m => m.info

/-- The place of a node. -/
def span (n : Node) : Span := n.info.span

/-- The names and types that are written in a node, the nodes inside it apart, in source
order. -/
def spellings : Node → List (Spelling × Name)
  | .package d => [(.path, d.name)]
  | .importing d => [(.other, d.path)]
  | .service s => [(.word, s.name)]
  | .rpc r => [(.word, r.name), (.path, r.request), (.path, r.response)]
  | .enumValue v => [(.word, v.name)]
  | .member m => m.spellings
  | _ => []

/-- The nodes directly inside a node, in source order. -/
def children : Node → List Node
  | .service s => s.members.map ServiceMember.node
  | .rpc r => r.options.map OptionDecl.node
  | .enumValue v => v.options.map OptionDecl.node
  | .member (.field f) => f.options.map OptionDecl.node
  | .member (.map m) => m.options.map OptionDecl.node
  | .member (.group h body) => h.options.map OptionDecl.node ++ body.map Node.member
  | .member (.oneof _ body) => body.map Node.member
  | .member (.message _ body) => body.map Node.member
  | .member (.enum e) => e.members.map EnumMember.node
  | .member (.extend _ body) => body.map Node.member
  | .member (.extensions e) => e.options.map OptionDecl.node
  | _ => []

end Node

/-! ### Lists of one kind -/

/-- The nodes of a body that have a kind. -/
def Member.list (body : List Member) : MemberKind → List Node
  | .field => (fields body).map fun f => .member (.field f)
  | .map => (maps body).map fun m => .member (.map m)
  | .group => (groups body).map fun g => .member (.group g.head g.body)
  | .oneof => (oneofs body).map fun o => .member (.oneof o.head o.body)
  | .message => (messages body).map fun m => .member (.message m.head m.body)
  | .enum => (enums body).map fun e => .member (.enum e)
  | .extend => (extensionBlocks body).map fun e => .member (.extend e.head e.body)
  | .option => (options body).map OptionDecl.node
  | .reserved => (reservations body).map fun r => .member (.reserved r)
  | .extensions => (extensionRanges body).map fun e => .member (.extensions e)

/-- The kinds of members that a message and a group have lists for, options apart. -/
def Member.bodyKinds : List MemberKind :=
  [.field, .map, .group, .oneof, .message, .enum, .extend, .reserved, .extensions]

namespace Node

/-- The nodes directly inside a node, in one list for each of their kinds. -/
def childLists : Node → List (List Node)
  | .service s => [s.rpcs.map .rpc, s.options.map OptionDecl.node]
  | .rpc r => [r.options.map OptionDecl.node]
  | .enumValue v => [v.options.map OptionDecl.node]
  | .member (.field f) => [f.options.map OptionDecl.node]
  | .member (.map m) => [m.options.map OptionDecl.node]
  | .member (.group h body) =>
    (Group.options ⟨h, body⟩).map OptionDecl.node :: Member.bodyKinds.map (Member.list body)
  | .member (.oneof _ body) => [MemberKind.field, .group, .option].map (Member.list body)
  | .member (.message _ body) =>
    Member.list body .option :: Member.bodyKinds.map (Member.list body)
  | .member (.enum e) =>
    [e.values.map .enumValue, e.options.map OptionDecl.node,
      e.reservations.map fun r => .member (.reserved r)]
  | .member (.extend _ body) => [MemberKind.field, .group].map (Member.list body)
  | .member (.extensions e) => [e.options.map OptionDecl.node]
  | _ => []

end Node

namespace SchemaFile

/-- The nodes directly inside a file, in source order. -/
def children (f : SchemaFile) : List Node := f.items.map Item.node

/-- The nodes directly inside a file, in one list for each of their kinds. -/
def childLists (f : SchemaFile) : List (List Node) :=
  [f.syntaxDecl?.toList.map .syntaxLevel, f.editionDecl?.toList.map .edition,
    f.packageDecl?.toList.map .package, f.imports.map .importing, f.services.map .service] ++
  [MemberKind.message, .enum, .extend, .option].map (Member.list f.members)

/-- A file has the nodes directly inside it, and those directly inside a node it has. -/
inductive HasNode (f : SchemaFile) : Node → Prop
  | top {n : Node} (mem : n ∈ f.children) : HasNode f n
  | inside {p n : Node} (parent : HasNode f p) (mem : n ∈ p.children) : HasNode f n

end SchemaFile

/-! ### Order and overlap -/

namespace Node

/-- A node ends before another begins, or where it begins. -/
def Before (a b : Node) : Prop := a.span.stop ≤ b.span.start

/-- One of two nodes ends before the other begins. -/
def Apart (a b : Node) : Prop := a.Before b ∨ b.Before a

/-- Lists of nodes that are each in source order, and do not overlap, within a list or
across lists. -/
structure Arranged (lists : List (List Node)) : Prop where
  ordered : ∀ l ∈ lists, l.Pairwise Before
  apart : lists.flatten.Pairwise Apart

/-- Each list holds nodes of one kind, picked out of some nodes in order. -/
def Sorts (nodes : List Node) (kinds : List NodeKind) (lists : List (List Node)) : Prop :=
  List.Forall₂ (fun kind l => l.Sublist (nodes.filter (·.kind = kind))) kinds lists

variable {nodes : List Node} {kinds : List NodeKind} {lists : List (List Node)}

theorem Sorts.subset (h : Sorts nodes kinds lists) : ∀ l ∈ lists, l ⊆ nodes := by
  induction h with
  | nil => exact fun l hl => absurd hl List.not_mem_nil
  | cons sub _ ih =>
    intro l hl
    rcases List.mem_cons.1 hl with rfl | hl
    · exact fun n hn => (List.mem_filter.1 (sub.subset hn)).1
    · exact ih l hl

theorem Sorts.kind_mem (h : Sorts nodes kinds lists) {n : Node} (hn : n ∈ lists.flatten) :
    n.kind ∈ kinds := by
  induction h with
  | nil => cases hn
  | cons sub _ ih =>
    rw [List.flatten_cons, List.mem_append] at hn
    rcases hn with hn | hn
    · exact of_decide_eq_true (List.mem_filter.1 (sub.subset hn)).2 ▸ List.mem_cons_self
    · exact List.mem_cons_of_mem _ (ih hn)

/-- **Lists of different kinds picked from ordered nodes are arranged.** -/
theorem Sorts.arranged (h : Sorts nodes kinds lists) (distinct : kinds.Nodup)
    (ordered : nodes.Pairwise Before) : Arranged lists := by
  have symmetric : Std.Symm Apart := ⟨fun _ _ => Or.symm⟩
  have apart : nodes.Pairwise Apart := ordered.imp Or.inl
  constructor
  · intro l hl
    obtain ⟨kind, sub⟩ : ∃ kind, l.Sublist (nodes.filter (·.kind = kind)) := by
      induction h with
      | nil => cases hl
      | @cons kind _ _ _ sub _ ih =>
        rcases List.mem_cons.1 hl with rfl | hl
        · exact ⟨kind, sub⟩
        · exact ih distinct.of_cons hl
    exact ordered.sublist (sub.trans List.filter_sublist)
  · induction h with
    | nil => exact List.Pairwise.nil
    | @cons kind l kinds lists sub rest ih =>
      rw [List.flatten_cons, List.pairwise_append]
      refine ⟨apart.sublist (sub.trans List.filter_sublist), ih distinct.of_cons,
        fun a ha b hb => ?_⟩
      obtain ⟨l', hl', hb'⟩ := List.mem_flatten.1 hb
      have here := List.mem_filter.1 (sub.subset ha)
      refine apart.forall here.1 (Sorts.subset rest l' hl' hb') fun same => ?_
      have kinds := Sorts.kind_mem rest hb
      rw [← same, of_decide_eq_true here.2] at kinds
      exact (List.nodup_cons.1 distinct).1 kinds

end Node

/-! ### The lists of every node -/

/-- Picking out and mapping is mapping and filtering. -/
theorem map_filterMap_eq_filter {α β γ : Type} {pick : α → Option β} {g : β → γ} {e : α → γ}
    {p : γ → Bool} (h : ∀ a, (pick a).map g = if p (e a) then some (e a) else none) (l : List α) :
    (l.filterMap pick).map g = (l.map e).filter p := by
  induction l with
  | nil => rfl
  | cons a l ih =>
    have here := h a
    rw [List.map_cons, List.filter_cons]
    cases picked : pick a with
    | none =>
      rw [picked] at here
      rw [List.filterMap_cons_none picked, ih]
      split
      · next kept =>
        rw [if_pos kept] at here
        cases here
      · rfl
    | some b =>
      rw [picked] at here
      rw [List.filterMap_cons_some picked, List.map_cons, ih]
      split
      · next kept =>
        rw [if_pos kept] at here
        rw [Option.some.inj here]
      · next dropped =>
        rw [if_neg dropped] at here
        cases here

theorem sublist_filter {α β γ : Type} {pick : α → Option β} {g : β → γ} {e : α → γ}
    {p : γ → Bool} (h : ∀ a, (pick a).map g = if p (e a) then some (e a) else none) (l : List α) :
    ((l.filterMap pick).map g).Sublist ((l.map e).filter p) := by
  rw [map_filterMap_eq_filter h]

theorem Member.list_eq_filter (body : List Member) (kind : MemberKind) :
    list body kind = (body.map Node.member).filter (·.kind = .member kind) := by
  cases kind <;> exact map_filterMap_eq_filter (fun m => by cases m <;> rfl) body

theorem OptionDecl.filter_node (os : List OptionDecl) :
    (os.map node).filter (·.kind = .member .option) = os.map node := by
  rw [List.filter_eq_self]
  intro n hn
  obtain ⟨o, -, rfl⟩ := List.mem_map.1 hn
  rfl

/-- The kinds of the lists that a node of a kind has. -/
def NodeKind.listKinds : NodeKind → List NodeKind
  | .syntaxLevel | .edition | .package | .importing => []
  | .service => [.rpc, .member .option]
  | .rpc => [.member .option]
  | .enumValue => [.member .option]
  | .member .group => .member .option :: Member.bodyKinds.map .member
  | .member .oneof => [MemberKind.field, .group, .option].map .member
  | .member .message => .member .option :: Member.bodyKinds.map .member
  | .member .enum => [.enumValue, .member .option, .member .reserved]
  | .member .extend => [MemberKind.field, .group].map .member
  | .member .option | .member .reserved => []
  | .member _ => [.member .option]

theorem NodeKind.nodup_listKinds (kind : NodeKind) : kind.listKinds.Nodup := by
  cases kind with
  | member kind => cases kind <;> decide
  | _ => decide

namespace Node

/-- The options in brackets are one list. -/
theorem sorts_options (os : List OptionDecl) :
    Sorts (os.map OptionDecl.node) [.member .option] [os.map OptionDecl.node] := by
  refine .cons ?_ .nil
  rw [OptionDecl.filter_node]

/-- The lists of a body are picked from the body, and from all that holds it. -/
theorem sorts_body {body : List Member} {nodes : List Node} (sub : (body.map member).Sublist nodes)
    (kinds : List MemberKind) : Sorts nodes (kinds.map .member) (kinds.map (Member.list body)) := by
  rw [Sorts, List.forall₂_map_left_iff, List.forall₂_map_right_iff, List.forall₂_same]
  intro kind _
  rw [Member.list_eq_filter]
  exact sub.filter _

/-- **The lists of a node hold its children, kind by kind.** -/
theorem sorts_childLists (n : Node) : Sorts n.children n.kind.listKinds n.childLists := by
  cases n with
  | service s =>
    exact .cons (sublist_filter (fun m => by cases m <;> rfl) s.members) <|
      .cons (sublist_filter (fun m => by cases m <;> rfl) s.members) .nil
  | rpc r => exact sorts_options r.options
  | enumValue v => exact sorts_options v.options
  | member m =>
    cases m with
    | field f => exact sorts_options f.options
    | map m => exact sorts_options m.options
    | extensions e => exact sorts_options e.options
    | group h body =>
      refine .cons ?_ (sorts_body (List.sublist_append_right _ _) _)
      rw [children, List.filter_append, OptionDecl.filter_node, ← Member.list_eq_filter,
        Group.options, List.map_append]
      rfl
    | oneof h body => exact sorts_body (List.Sublist.refl _) _
    | message h body => exact sorts_body (List.Sublist.refl _) (.option :: Member.bodyKinds)
    | extend h body => exact sorts_body (List.Sublist.refl _) _
    | enum e =>
      exact .cons (sublist_filter (fun m => by cases m <;> rfl) e.members) <|
        .cons (sublist_filter (fun m => by cases m <;> rfl) e.members) <|
        .cons (sublist_filter (fun m => by cases m <;> rfl) e.members) .nil
    | option o => exact .nil
    | reserved r => exact .nil
  | _ => exact .nil

theorem arranged_childLists {n : Node} (ordered : n.children.Pairwise Before) :
    Arranged n.childLists :=
  n.sorts_childLists.arranged n.kind.nodup_listKinds ordered

end Node

namespace SchemaFile

theorem sublist_findSome? {α β : Type} (pick : α → Option β) (l : List α) :
    (l.findSome? pick).toList.Sublist (l.filterMap pick) := by
  induction l with
  | nil => exact List.Sublist.refl _
  | cons a l ih =>
    rw [List.findSome?_cons]
    cases picked : pick a with
    | none => rwa [List.filterMap_cons_none picked]
    | some b =>
      rw [List.filterMap_cons_some picked]
      exact (List.nil_sublist _).cons_cons b

theorem sublist_members (f : SchemaFile) : (f.members.map Node.member).Sublist f.children := by
  rw [members, children]
  induction f.items with
  | nil => exact List.Sublist.refl _
  | cons i rest ih =>
    cases i with
    | member m => exact ih.cons_cons _
    | _ => exact ih.cons _

/-- The kinds of the lists of a file. -/
def listKinds : List NodeKind :=
  [.syntaxLevel, .edition, .package, .importing, .service] ++
    [MemberKind.message, .enum, .extend, .option].map .member

/-- **The lists of a file hold its children, kind by kind.** -/
theorem sorts_childLists (f : SchemaFile) : Node.Sorts f.children listKinds f.childLists := by
  refine .cons ?_ <| .cons ?_ <| .cons ?_ <| .cons ?_ <| .cons ?_ <|
    Node.sorts_body f.sublist_members _
  · exact ((sublist_findSome? _ f.items).map _).trans
      (sublist_filter (fun i => by cases i <;> rfl) f.items)
  · exact ((sublist_findSome? _ f.items).map _).trans
      (sublist_filter (fun i => by cases i <;> rfl) f.items)
  · exact ((sublist_findSome? _ f.items).map _).trans
      (sublist_filter (fun i => by cases i <;> rfl) f.items)
  · exact sublist_filter (fun i => by cases i <;> rfl) f.items
  · exact sublist_filter (fun i => by cases i <;> rfl) f.items

theorem arranged_childLists {f : SchemaFile} (ordered : f.children.Pairwise Node.Before) :
    Node.Arranged f.childLists :=
  f.sorts_childLists.arranged (by decide) ordered

end SchemaFile
end ProtoAtlas
