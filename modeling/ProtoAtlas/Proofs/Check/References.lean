/-
# The references a check looks at

A check goes through the references of a file on its own: through messages and groups kind by
kind, through the fields and groups of oneofs and extend blocks, and last through services.  It
has its own scope on the way.  What it finds is, up to order, what it finds at each reference
that is listed for a file, looked at alone (`Check.perm_typeReferences`).

Both are compared with the references in source order (`Member.references`), by induction on
the tree.  A check leaves out whatever else stands in a oneof or an extend block, so this is
about files that were read: there nothing else can stand in one (`Node.Fits`).
-/

import ProtoAtlas.Proofs.Symbol.Declared
import ProtoAtlas.Proofs.Symbol.Referred
import ProtoAtlas.Proofs.Workspace.Answer

namespace ProtoAtlas

/-- A member that the walk for references leaves out has none. -/
theorem Member.visited_or_silent (scope : Text) (m : Member) :
    m.kind ∈ TypeSite.walk.order ∨ m.references scope = [] := by
  refine (TypeSite.visited_or_silent scope m).imp_right fun silent => ?_
  have same := TypeSite.perm_member scope m
  rw [silent] at same
  exact List.nil_perm.1 same

namespace SchemaFile

variable {uri source scope : Text}

/-- A oneof and an extend block of a file have references in fields and groups only. -/
theorem HasNode.field_or_group {m c : Member} (has : (parse uri source).HasNode (.member m))
    (narrow : m.kind = .oneof ∨ m.kind = .extend) (hc : c ∈ m.inner) :
    c.kind ∈ [MemberKind.field, .group] ∨ c.references scope = [] := by
  have stands : Node.member c ∈ (Node.member m).members := by
    cases m with
    | oneof | extend => exact List.mem_map_of_mem hc
    | _ => rcases narrow with narrow | narrow <;> cases narrow
  have kind := has.fits_parse.kind_of_mem stands
  rcases c.visited_or_silent scope with visited | silent
  · left
    rcases narrow with narrow | narrow
    · simp only [Node.kind, narrow, NodeKind.inside] at kind
      revert kind visited
      cases c.kind <;> decide
    · simp only [Node.kind, narrow, NodeKind.inside] at kind
      revert kind visited
      cases c.kind <;> decide
  · exact Or.inr silent

end SchemaFile

namespace Check

open Query Session

variable {w : Workspace} {uri scope : Text}

/-- The check of one reference: what it is for decides how it is looked at. -/
def site (uri : Text) (t : TypeSite) : Query (List Finding) :=
  match t.role with
  | .field => fieldType uri t.scope t.type
  | .extendTarget => extendTarget uri t.scope t.type
  | .rpc name => rpcType uri t.scope name t.type

/-- What is found at a reference. -/
def foundAt (w : Workspace) (uri : Text) (t : TypeSite) : List Finding := (site uri t).answer w

theorem foundAt_field (type : Name) : foundAt w uri ⟨type, scope, .field⟩ =
    if scalarTypes.contains type.text then [] else
      (resolved uri scope type fun _ => []).answer w :=
  answer_ite ..

theorem foundAt_extendTarget (type : Name) : foundAt w uri ⟨type, scope, .extendTarget⟩ =
    (resolved uri scope type fun s =>
      findIf (s.kind ≠ .message) (.extendsNonMessage type.text) type.span).answer w := rfl

theorem foundAt_rpc (type : Name) (name : Text) : foundAt w uri ⟨type, scope, .rpc name⟩ =
    if scalarTypes.contains type.text then [(Problem.rpcScalar name type.text).at type.span] else
      (resolved uri scope type fun s =>
        findIf (s.kind ≠ .message) (.rpcEnum name type.text) type.span).answer w :=
  answer_ite ..

/-- A type is unknown if it resolves to none; otherwise the symbol it means is judged. -/
theorem answer_resolved (type : Name) (judge : Symbol → List Finding) :
    (resolved uri scope type judge).answer w =
      match (resolveType type.text uri (some scope)).answer w with
      | none => [(Problem.typeUnknown type.text).at type.span]
      | some s => judge s := by
  rw [resolved, answer_bind (looks_resolveType _ uri _) fun found => ?_]
  · cases (resolveType type.text uri (some scope)).answer w <;> rfl
  · cases found <;> exact .pure _

/-- Checks that run in turn find what a walk in this order collects. -/
theorem answer_inTurn {order : List MemberKind} {checks : List (MemberKind × Query (List Finding))}
    (h : ∀ p ∈ checks, Looks p.2) : (inTurn order checks).answer w =
      Walk.inOrder order (checks.map fun p => (p.1, p.2.answer w)) := by
  have each : ∀ p ∈ order.flatMap fun kind => checks.filter (·.1 = kind), Looks p.2 := by
    intro p hp
    obtain ⟨kind, -, hp⟩ := List.mem_flatMap.1 hp
    exact h p (List.mem_filter.1 hp).1
  rw [inTurn, answer_bind (.mapM each) fun _ => .pure _, answer_mapM each, answer_pure,
    ← List.flatMap_def, List.flatMap_assoc]
  refine List.flatMap_congr fun kind _ => ?_
  rw [List.filter_map, List.flatMap_map]
  rfl

/-- **One body.**  Checks of the members of a body find what there is at their references, if
no member with references is left out. -/
theorem perm_inTurn {order : List MemberKind} (once : order.Nodup) {body : List Member}
    (all : ∀ m ∈ body, m.kind ∈ order ∨ m.references scope = [])
    (h : ∀ m ∈ body, ((references uri scope m).answer w).Perm
      ((m.references scope).flatMap (foundAt w uri))) :
    ((inTurn order (referencesIn uri scope body)).answer w).Perm
      ((body.flatMap (Member.references scope)).flatMap (foundAt w uri)) := by
  have looks : ∀ p ∈ body.map fun m => (m.kind, references uri scope m), Looks p.2 := by
    intro p hp
    obtain ⟨m, -, rfl⟩ := List.mem_map.1 hp
    exact looks_references uri scope m
  rw [referencesIn_eq_map, answer_inTurn looks, List.map_map, List.flatMap_assoc]
  refine (Walk.perm_inOrder once fun p hp => ?_).trans ?_
  · obtain ⟨m, hm, rfl⟩ := List.mem_map.1 hp
    refine (all m hm).imp_right fun silent => ?_
    have found := h m hm
    rw [silent] at found
    exact List.perm_nil.1 found
  · rw [List.flatMap_map]
    exact List.Perm.flatMap_left body h

/-- **The check of a member looks at every reference in it once**, in its scope. -/
theorem perm_references {treeUri source : Text} {m : Member}
    (has : (SchemaFile.parse treeUri source).HasNode (.member m)) :
    ((references uri scope m).answer w).Perm ((m.references scope).flatMap (foundAt w uri)) := by
  induction m using Member.inner_induction generalizing scope with
  | step m ih =>
    have inner : ∀ scope, ∀ c ∈ m.inner, ((references uri scope c).answer w).Perm
        ((c.references scope).flatMap (foundAt w uri)) := fun scope c hc =>
      ih c hc (.inside has (Node.member_mem_children hc))
    rw [m.references_eq scope, List.flatMap_append]
    cases m with
    | field | map =>
      exact List.Perm.of_eq (by simp [references, TypeSite.entering, Member.inner, foundAt, site])
    | group head body =>
      exact perm_inTurn (by decide) (fun c _ => c.visited_or_silent _) (inner _)
    | message head body =>
      exact perm_inTurn (by decide) (fun c _ => c.visited_or_silent _) (inner _)
    | oneof head body =>
      exact perm_inTurn (by decide) (fun c hc => has.field_or_group (Or.inl rfl) hc) (inner _)
    | extend head body =>
      have inside := perm_inTurn (by decide) (fun c hc => has.field_or_group (Or.inr rfl) hc)
        (inner scope)
      have looks := looks_referencesIn [.field, .group] uri scope body
      rw [references, answer_bind (looks_extendTarget uri scope head.target) fun _ =>
        looks.bind fun _ => .pure _, answer_bind looks fun _ => .pure _, answer_pure]
      refine List.Perm.append (List.Perm.of_eq ?_) inside
      simp [TypeSite.entering, foundAt, site]
    | _ => exact .nil

/-- The check of a procedure looks at its two references. -/
theorem answer_rpc (r : Rpc) :
    (rpc uri scope r).answer w = (r.references scope).flatMap (foundAt w uri) := by
  rw [rpc, answer_bind (looks_rpcType uri scope _ _) fun _ =>
    (looks_rpcType uri scope _ _).bind fun _ => .pure _,
    answer_bind (looks_rpcType uri scope _ _) fun _ => .pure _, answer_pure]
  exact congrArg (_ ++ ·) (List.append_nil _).symm

/-- **The check of a file looks at every reference that is listed for it, once.** -/
theorem perm_typeReferences {f : SchemaFile} (parsed : f.Parsed) (w : Workspace) (uri : Text) :
    ((typeReferences uri f).answer w).Perm (f.typeSites.flatMap (foundAt w uri)) := by
  obtain ⟨treeUri, source, tree⟩ := parsed
  have members : ((inTurn [.message, .extend] (referencesIn uri f.packageName f.members)).answer
      w).Perm ((f.members.flatMap (Member.references f.packageName)).flatMap (foundAt w uri)) := by
    refine perm_inTurn (by decide) (fun m hm => ?_) fun m hm => ?_
    · exact (m.visited_or_silent _).imp_left (SchemaFile.message_or_extend (tree ▸ hm))
    · have has : f.HasNode (.member m) :=
        .top (f.sublist_members.subset (List.mem_map_of_mem hm))
      exact perm_references (tree ▸ has)
  have services : (((f.services.flatMap (·.rpcs)).mapM (rpc uri f.packageName)).answer w).flatten =
      (f.services.flatMap fun s => s.rpcs.flatMap (Rpc.references f.packageName)).flatMap
        (foundAt w uri) := by
    rw [answer_mapM fun r _ => looks_rpc uri _ r, ← List.flatMap_def, List.flatMap_assoc,
      List.flatMap_assoc]
    simp only [answer_rpc, List.flatMap_assoc]
  have looks := looks_rpcs uri f.packageName (f.services.flatMap (·.rpcs))
  rw [typeReferences, answer_bind (looks_referencesIn _ uri _ _) fun _ =>
    looks.bind fun _ => .pure _, answer_bind looks fun _ => .pure _, answer_pure, services]
  refine (members.append_right _).trans ?_
  rw [← List.flatMap_append]
  refine (f.perm_memberReferences.trans ?_).flatMap_right _
  rw [tree]
  exact (SchemaFile.perm_references treeUri source).symm

end Check
end ProtoAtlas
