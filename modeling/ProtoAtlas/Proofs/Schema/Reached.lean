/-
# What a walk reaches

A walk collects from exactly those members that it reaches: it starts at the members of
a file of some kinds and goes down through members of the kinds in its order
(`Walk.mem_file_iff`).  Whatever is said about all that a walk collects can so be said
about members and the scopes they stand in (`SchemaFile.Reaches`), without the walk.  What
is reached can be listed (`SchemaFile.reached`).

A walk lists what it collects kind by kind.  If the kinds that it leaves out have nothing to
collect, the list is a permutation of what the members have in source order
(`Walk.perm_body`).
-/

import Mathlib.Data.List.Perm.Basic
import ProtoAtlas.Schema.Walk

namespace ProtoAtlas
namespace Member

/-! ### The members of one kind -/

theorem mem_fields {body : List Member} {f : Field} : f ∈ fields body ↔ .field f ∈ body := by
  rw [fields, List.mem_filterMap]
  refine ⟨fun ⟨c, hc, found⟩ => ?_, fun h => ⟨_, h, rfl⟩⟩
  cases c with
  | field g => exact Option.some.inj found ▸ hc
  | _ => cases found

theorem mem_maps {body : List Member} {m : MapField} : m ∈ maps body ↔ .map m ∈ body := by
  rw [maps, List.mem_filterMap]
  refine ⟨fun ⟨c, hc, found⟩ => ?_, fun h => ⟨_, h, rfl⟩⟩
  cases c with
  | map n => exact Option.some.inj found ▸ hc
  | _ => cases found

theorem mem_groups {body : List Member} {g : Group} :
    g ∈ groups body ↔ .group g.head g.body ∈ body := by
  rw [groups, List.mem_filterMap]
  refine ⟨fun ⟨c, hc, found⟩ => ?_, fun h => ⟨_, h, rfl⟩⟩
  cases c with
  | group head inner => exact Option.some.inj found ▸ hc
  | _ => cases found

theorem mem_oneofs {body : List Member} {o : Oneof} :
    o ∈ oneofs body ↔ .oneof o.head o.body ∈ body := by
  rw [oneofs, List.mem_filterMap]
  refine ⟨fun ⟨c, hc, found⟩ => ?_, fun h => ⟨_, h, rfl⟩⟩
  cases c with
  | oneof head inner => exact Option.some.inj found ▸ hc
  | _ => cases found

/-! ### Members inside members -/

/-- The members directly inside a member. -/
def inner : Member → List Member
  | .group _ body => body
  | .oneof _ body => body
  | .message _ body => body
  | .extend _ body => body
  | _ => []

/-- An enum has no members inside. -/
theorem kind_ne_enum {m : Member} (h : m.inner ≠ []) : m.kind ≠ .enum := by
  intro isEnum
  cases m with
  | enum e => exact h rfl
  | _ => cases isEnum

/-- The scope of the members inside a member that stands in a scope. -/
def innerScope (scope : Text) : Member → Text
  | .group head _ => qualify scope head.name.text
  | .message head _ => qualify scope head.name.text
  | _ => scope

/-- What holds of a member whenever it holds of the members inside it holds of all. -/
theorem inner_induction {P : Member → Prop} (step : ∀ m, (∀ c ∈ m.inner, P c) → P m) :
    ∀ m, P m
  | .group head body => step (.group head body) fun c (_ : c ∈ body) => inner_induction step c
  | .oneof head body => step (.oneof head body) fun c (_ : c ∈ body) => inner_induction step c
  | .message head body => step (.message head body) fun c (_ : c ∈ body) => inner_induction step c
  | .extend head body => step (.extend head body) fun c (_ : c ∈ body) => inner_induction step c
  | .field f => step (.field f) fun c hc => nomatch hc
  | .map m => step (.map m) fun c hc => nomatch hc
  | .enum e => step (.enum e) fun c hc => nomatch hc
  | .option o => step (.option o) fun c hc => nomatch hc
  | .reserved r => step (.reserved r) fun c hc => nomatch hc
  | .extensions e => step (.extensions e) fun c hc => nomatch hc

/-- `Reaches kinds scope m scope' m'`: from a member in a scope another one is reached in
its scope, going down through members of the given kinds. -/
inductive Reaches (kinds : List MemberKind) : Text → Member → Text → Member → Prop
  | here (scope : Text) (m : Member) : Reaches kinds scope m scope m
  | inside {scope scope' : Text} {m c m' : Member} (mem : c ∈ m.inner) (kind : c.kind ∈ kinds)
      (rest : Reaches kinds (m.innerScope scope) c scope' m') : Reaches kinds scope m scope' m'

namespace Reaches

variable {kinds kinds' : List MemberKind} {scope scope' scope'' : Text} {m m' m'' : Member}

theorem trans (h : Reaches kinds scope m scope' m') (h' : Reaches kinds scope' m' scope'' m'') :
    Reaches kinds scope m scope'' m'' := by
  induction h with
  | here => exact h'
  | inside mem kind _ ih => exact .inside mem kind (ih h')

/-- One step further down. -/
theorem child (h : Reaches kinds scope m scope' m') (mem : m'' ∈ m'.inner)
    (kind : m''.kind ∈ kinds) : Reaches kinds scope m (m'.innerScope scope') m'' :=
  h.trans (.inside mem kind (.here _ _))

theorem mono (h : Reaches kinds scope m scope' m') (sub : ∀ k ∈ kinds, k ∈ kinds') :
    Reaches kinds' scope m scope' m' := by
  induction h with
  | here => exact .here _ _
  | inside mem kind _ ih => exact .inside mem (sub _ kind) ih

/-- From a member with nothing inside only itself is reached. -/
theorem eq_of_inner_nil (h : Reaches kinds scope m scope' m') (leaf : m.inner = []) : m' = m := by
  cases h with
  | here => rfl
  | inside mem => exact absurd (leaf ▸ mem) List.not_mem_nil

/-- Only members with something inside lead to others, so the other kinds do not matter
but for the kind of the member that is reached. -/
theorem narrow (h : Reaches kinds scope m scope' m') (last : m'.kind ∈ kinds → m'.kind ∈ kinds')
    (sub : ∀ c : Member, c.inner ≠ [] → c.kind ∈ kinds → c.kind ∈ kinds') :
    Reaches kinds' scope m scope' m' := by
  induction h with
  | here => exact .here _ _
  | @inside _ _ _ c _ mem kind rest ih =>
    refine .inside mem ?_ (ih last)
    by_cases leaf : c.inner = []
    · rw [← rest.eq_of_inner_nil leaf] at kind ⊢
      exact last kind
    · exact sub c leaf kind

end Reaches
end Member

/-- From the members of a file that have one of the kinds `tops`, a member is reached in
its scope, going down through members of the given kinds. -/
def SchemaFile.Reaches (f : SchemaFile) (tops kinds : List MemberKind) (scope : Text)
    (m : Member) : Prop :=
  ∃ top ∈ f.members, top.kind ∈ tops ∧ Member.Reaches kinds f.packageName top scope m

theorem SchemaFile.Reaches.child {f : SchemaFile} {tops kinds : List MemberKind} {scope : Text}
    {m c : Member} (h : f.Reaches tops kinds scope m) (mem : c ∈ m.inner) (kind : c.kind ∈ kinds) :
    f.Reaches tops kinds (m.innerScope scope) c := by
  obtain ⟨top, htop, hkind, way⟩ := h
  exact ⟨top, htop, hkind, way.child mem kind⟩

theorem SchemaFile.Reaches.mono {f : SchemaFile} {tops tops' kinds kinds' : List MemberKind}
    {scope : Text} {m : Member} (h : f.Reaches tops kinds scope m)
    (subTops : ∀ k ∈ tops, k ∈ tops') (sub : ∀ k ∈ kinds, k ∈ kinds') :
    f.Reaches tops' kinds' scope m := by
  obtain ⟨top, htop, hkind, way⟩ := h
  exact ⟨top, htop, subTops _ hkind, way.mono sub⟩

theorem SchemaFile.Reaches.narrow {f : SchemaFile} {tops tops' kinds kinds' : List MemberKind}
    {scope : Text} {m : Member} (h : f.Reaches tops kinds scope m)
    (lastTop : m.kind ∈ tops → m.kind ∈ tops') (last : m.kind ∈ kinds → m.kind ∈ kinds')
    (subTops : ∀ c : Member, c.inner ≠ [] → c.kind ∈ tops → c.kind ∈ tops')
    (sub : ∀ c : Member, c.inner ≠ [] → c.kind ∈ kinds → c.kind ∈ kinds') :
    f.Reaches tops' kinds' scope m := by
  obtain ⟨top, htop, hkind, way⟩ := h
  refine ⟨top, htop, ?_, way.narrow last sub⟩
  by_cases leaf : top.inner = []
  · rw [← way.eq_of_inner_nil leaf] at hkind ⊢
    exact lastTop hkind
  · exact subTops top leaf hkind

theorem SchemaFile.reaches_cons_iff {f : SchemaFile} {top : MemberKind}
    {tops kinds : List MemberKind} {scope : Text} {m : Member} :
    f.Reaches (top :: tops) kinds scope m ↔
      f.Reaches [top] kinds scope m ∨ f.Reaches tops kinds scope m := by
  simp only [SchemaFile.Reaches, List.mem_cons, List.not_mem_nil, or_false, or_and_right,
    and_or_left, exists_or]

namespace Walk

variable {α : Type}

theorem members_eq_map (w : Walk α) (scope : Text) (body : List Member) :
    w.members scope body = body.map fun m => (m.kind, w.member scope m) := by
  induction body with
  | nil => rw [members, List.map_nil]
  | cons m rest ih => rw [members, List.map_cons, ih]

theorem mem_inOrder {order : List MemberKind} {collected : List (MemberKind × List α)} {a : α} :
    a ∈ inOrder order collected ↔ ∃ p ∈ collected, p.1 ∈ order ∧ a ∈ p.2 := by
  constructor
  · intro h
    obtain ⟨kind, hkind, h⟩ := List.mem_flatMap.1 h
    obtain ⟨p, hp, ha⟩ := List.mem_flatMap.1 h
    obtain ⟨hp, same⟩ := List.mem_filter.1 hp
    exact ⟨p, hp, of_decide_eq_true same ▸ hkind, ha⟩
  · rintro ⟨p, hp, hkind, ha⟩
    exact List.mem_flatMap.2 ⟨p.1, hkind, List.mem_flatMap.2
      ⟨p, List.mem_filter.2 ⟨hp, decide_eq_true rfl⟩, ha⟩⟩

/-- What is collected in a body comes from its members of the kinds in the order. -/
theorem mem_inOrder_members {w : Walk α} {scope : Text} {order : List MemberKind}
    {body : List Member} {a : α} : a ∈ inOrder order (w.members scope body) ↔
      ∃ m ∈ body, m.kind ∈ order ∧ a ∈ w.member scope m := by
  rw [mem_inOrder, members_eq_map]
  constructor
  · rintro ⟨p, hp, hkind, ha⟩
    obtain ⟨m, hm, rfl⟩ := List.mem_map.1 hp
    exact ⟨m, hm, hkind, ha⟩
  · rintro ⟨m, hm, hkind, ha⟩
    exact ⟨(m.kind, w.member scope m), List.mem_map.2 ⟨m, hm, rfl⟩, hkind, ha⟩

theorem member_eq (w : Walk α) (scope : Text) (m : Member) :
    w.member scope m = w.enter scope m ++
      inOrder w.order (w.members (m.innerScope scope) m.inner) ++ w.leave scope m := by
  have nothing : ∀ scope, inOrder w.order (w.members scope []) = [] := by
    intro scope
    rw [members, inOrder]
    simp
  cases m with
  | group => rw [member]; rfl
  | oneof => rw [member]; rfl
  | message => rw [member]; rfl
  | extend => rw [member]; rfl
  | _ => simp only [member, Member.inner, nothing, List.append_nil]

/-- **A walk collects from the members it reaches**, and from no others. -/
theorem mem_member_iff {w : Walk α} {scope : Text} {m : Member} {a : α} :
    a ∈ w.member scope m ↔ ∃ scope' m', Member.Reaches w.order scope m scope' m' ∧
      (a ∈ w.enter scope' m' ∨ a ∈ w.leave scope' m') := by
  constructor
  · induction m using Member.inner_induction generalizing scope with
    | step m ih =>
      intro h
      rw [member_eq, List.mem_append, List.mem_append] at h
      rcases h with (entering | inside) | leaving
      · exact ⟨scope, m, .here scope m, Or.inl entering⟩
      · obtain ⟨c, hc, kind, ha⟩ := mem_inOrder_members.1 inside
        obtain ⟨scope', m', way, collected⟩ := ih c hc ha
        exact ⟨scope', m', .inside hc kind way, collected⟩
      · exact ⟨scope, m, .here scope m, Or.inr leaving⟩
  · rintro ⟨scope', m', way, collected⟩
    induction way with
    | here scope m =>
      rw [member_eq, List.mem_append, List.mem_append]
      exact collected.elim (fun h => Or.inl (Or.inl h)) Or.inr
    | inside mem kind _ ih =>
      rw [member_eq, List.mem_append, List.mem_append]
      exact Or.inl (Or.inr (mem_inOrder_members.2 ⟨_, mem, kind, ih collected⟩))

theorem mem_file_iff {w : Walk α} {tops : List MemberKind} {f : SchemaFile} {a : α} :
    a ∈ w.file tops f ↔ ∃ scope m, f.Reaches tops w.order scope m ∧
      (a ∈ w.enter scope m ∨ a ∈ w.leave scope m) := by
  rw [file, mem_inOrder_members]
  constructor
  · rintro ⟨top, htop, kind, ha⟩
    obtain ⟨scope, m, way, collected⟩ := mem_member_iff.1 ha
    exact ⟨scope, m, ⟨top, htop, kind, way⟩, collected⟩
  · rintro ⟨scope, m, ⟨top, htop, kind, way⟩, collected⟩
    exact ⟨top, htop, kind, mem_member_iff.2 ⟨scope, m, way, collected⟩⟩

end Walk

/-! ### Walks that leave nothing out -/

namespace Walk

variable {α : Type}

theorem inOrder_append (order order' : List MemberKind) (collected : List (MemberKind × List α)) :
    inOrder (order ++ order') collected = inOrder order collected ++ inOrder order' collected :=
  List.flatMap_append

/-- A kind that is visited once has its share once. -/
theorem flatMap_ite_eq {order : List MemberKind} (once : order.Nodup) {kind : MemberKind}
    (visited : kind ∈ order) (found : List α) :
    (order.flatMap fun k => if kind = k then found else []) = found := by
  induction order with
  | nil => cases visited
  | cons k order ih =>
    obtain ⟨fresh, once⟩ := List.nodup_cons.1 once
    rw [List.flatMap_cons]
    by_cases same : kind = k
    · have others : (order.flatMap fun k => if kind = k then found else []) = [] :=
        List.flatMap_eq_nil_iff.2 fun k' hk' => if_neg fun again => by
          rw [← again, same] at hk'
          exact fresh hk'
      rw [if_pos same, others, List.append_nil]
    · rw [if_neg same, List.nil_append]
      exact ih once ((List.mem_cons.1 visited).resolve_left same)

/-- **A walk loses nothing** but what is collected from kinds that its order does not name. -/
theorem perm_inOrder {order : List MemberKind} (once : order.Nodup)
    {collected : List (MemberKind × List α)} (all : ∀ p ∈ collected, p.1 ∈ order ∨ p.2 = []) :
    (inOrder order collected).Perm (collected.flatMap (·.2)) := by
  induction collected with
  | nil => simp [inOrder]
  | cons p rest ih =>
    obtain ⟨here, later⟩ := List.forall_mem_cons.1 all
    have share : (order.flatMap fun k => if p.1 = k then p.2 else []) = p.2 := by
      rcases here with visited | silent
      · exact flatMap_ite_eq once visited p.2
      · simp [silent]
    -- The first member stands in front of the others of its kind.
    have split : inOrder order (p :: rest) = order.flatMap fun k =>
        (if p.1 = k then p.2 else []) ++ (rest.filter (·.1 = k)).flatMap (·.2) := by
      refine List.flatMap_congr fun k _ => ?_
      rw [List.filter_cons]
      by_cases same : p.1 = k <;> simp [same]
    rw [List.flatMap_cons, split]
    refine (List.flatMap_append_perm order _ _).symm.trans ?_
    rw [share]
    exact (ih later).append_left p.2

/-- What a walk collects in a body is what its members have, if it leaves nothing out. -/
theorem perm_body {w : Walk α} {order : List MemberKind} (once : order.Nodup) {scope : Text}
    {body : List Member} {collect : Member → List α}
    (all : ∀ m ∈ body, m.kind ∈ order ∨ w.member scope m = [])
    (h : ∀ m ∈ body, (w.member scope m).Perm (collect m)) :
    (inOrder order (w.members scope body)).Perm (body.flatMap collect) := by
  rw [members_eq_map]
  refine (perm_inOrder once fun p hp => ?_).trans ?_
  · obtain ⟨m, hm, rfl⟩ := List.mem_map.1 hp
    exact all m hm
  · rw [List.flatMap_map]
    exact List.Perm.flatMap_left body h

end Walk

/-- An item that is neither a member nor a service has nothing of what is collected. -/
def Item.SilentOr {α : Type} (collect : Item → List α) : Item → Prop
  | .member _ => True
  | .service _ => True
  | i => collect i = []

/-- What is collected from the items of a file is collected from its members and its
services. -/
theorem SchemaFile.perm_items {α : Type} (f : SchemaFile) (collect : Item → List α)
    (silent : ∀ i : Item, i.SilentOr collect) :
    (f.members.flatMap (fun m => collect (.member m)) ++
      f.services.flatMap fun s => collect (.service s)).Perm (f.items.flatMap collect) := by
  unfold members services
  induction f.items with
  | nil => exact .nil
  | cons i rest ih =>
    have here := silent i
    rw [List.flatMap_cons]
    cases i with
    | member m =>
      simp only [List.filterMap_cons, List.flatMap_cons, List.append_assoc]
      exact ih.append_left _
    | service s =>
      simp only [List.filterMap_cons, List.flatMap_cons]
      refine List.Perm.trans ?_ (ih.append_left _)
      rw [← List.append_assoc, ← List.append_assoc]
      exact List.perm_append_comm.append_right _
    | _ =>
      change collect _ = [] at here
      rw [List.filterMap_cons_none rfl, List.filterMap_cons_none rfl, here]
      exact ih

/-! ### What is reached -/

/-- The members that are reached, with their scopes. -/
def SchemaFile.reached (f : SchemaFile) (tops kinds : List MemberKind) : List (Text × Member) :=
  Walk.file ⟨kinds, fun scope m => [(scope, m)], fun _ _ => []⟩ tops f

theorem SchemaFile.mem_reached {f : SchemaFile} {tops kinds : List MemberKind} {scope : Text}
    {m : Member} : (scope, m) ∈ f.reached tops kinds ↔ f.Reaches tops kinds scope m := by
  rw [reached, Walk.mem_file_iff]
  constructor
  · rintro ⟨scope', m', reached, here | none⟩
    · obtain ⟨rfl, rfl⟩ := Prod.mk.inj (List.mem_singleton.1 here)
      exact reached
    · cases none
  · intro reached
    exact ⟨scope, m, reached, Or.inl List.mem_cons_self⟩

end ProtoAtlas
