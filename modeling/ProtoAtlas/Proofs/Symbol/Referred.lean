/-
# The references of a file that was read

References are listed kind by kind, and only some kinds are visited.  What is listed is, up to
order, every reference that is written in the file, once, in the scope that the declarations
around it make (`SchemaFile.perm_references`).  To say so the references are read off the tree
in source order, without a walk (`SchemaFile.references`): no kind that a walk leaves out has a
reference in it (`TypeSite.visited_or_silent`).

The names that are written in a node and in all that is inside it lie one behind the other on
the tokens of the node (`Node.Laid.inRow_written`).  The types that are referred to are among
them, so no two references share a span (`SchemaFile.nodup_spans_typeSites`).
-/

import Mathlib.Data.List.Flatten
import ProtoAtlas.Proofs.Grammar.TracedRules
import ProtoAtlas.Symbol.Reference

namespace ProtoAtlas

/-! ### The references of a file, in source order -/

mutual

/-- The references in a member that stands in a scope. -/
def Member.references (scope : Text) : Member → List TypeSite
  | .field f => [⟨f.type, scope, .field⟩]
  | .map m => [⟨m.value, scope, .field⟩]
  | .group head body => Member.referencesIn (qualify scope head.name.text) body
  | .oneof _ body => Member.referencesIn scope body
  | .message head body => Member.referencesIn (qualify scope head.name.text) body
  | .extend head body => ⟨head.target, scope, .extendTarget⟩ :: Member.referencesIn scope body
  | .enum _ => []
  | .option _ => []
  | .reserved _ => []
  | .extensions _ => []

/-- The references in the members of a body. -/
def Member.referencesIn (scope : Text) : List Member → List TypeSite
  | [] => []
  | m :: rest => m.references scope ++ Member.referencesIn scope rest

end

/-- The references in a procedure. -/
def Rpc.references (scope : Text) (r : Rpc) : List TypeSite :=
  [⟨r.request, scope, .rpc r.name.text⟩, ⟨r.response, scope, .rpc r.name.text⟩]

/-- The references in an item of a file. -/
def Item.references (package : Text) : Item → List TypeSite
  | .service s => s.rpcs.flatMap (Rpc.references package)
  | .member m => m.references package
  | _ => []

/-- The references in a file. -/
def SchemaFile.references (f : SchemaFile) : List TypeSite :=
  f.items.flatMap (Item.references f.packageName)

theorem Member.referencesIn_eq (scope : Text) (body : List Member) :
    Member.referencesIn scope body = body.flatMap (Member.references scope) := by
  induction body with
  | nil => rfl
  | cons m rest ih => rw [Member.referencesIn, ih, List.flatMap_cons]

/-- A member has its own reference and those of the members inside it. -/
theorem Member.references_eq (scope : Text) (m : Member) : m.references scope =
    TypeSite.entering scope m ++ m.inner.flatMap (Member.references (m.innerScope scope)) := by
  cases m <;>
    simp [Member.references, TypeSite.entering, Member.inner, Member.innerScope,
      Member.referencesIn_eq]

/-! ### The walk leaves no reference out -/

namespace TypeSite

/-- A kind of members that the walk leaves out has no references. -/
theorem visited_or_silent (scope : Text) (m : Member) :
    m.kind ∈ walk.order ∨ walk.member scope m = [] := by
  cases m with
  | enum | option | reserved | extensions =>
    right
    rw [Walk.member]
    rfl
  | _ =>
    left
    simp [walk, Member.kind]

/-- **The walk through a member meets every reference in it once**, in its scope. -/
theorem perm_member (scope : Text) (m : Member) :
    (walk.member scope m).Perm (m.references scope) := by
  induction m using Member.inner_induction generalizing scope with
  | step m ih =>
    have silent : walk.leave scope m = [] := rfl
    rw [Walk.member_eq, silent, List.append_nil, m.references_eq scope]
    refine List.Perm.append_left _ ?_
    exact Walk.perm_body (by decide) (fun c _ => visited_or_silent _ c) fun c hc => ih c hc _

end TypeSite

namespace SchemaFile

/-- At the top of a file only messages and extend blocks have references. -/
theorem message_or_extend {uri source : Text} {m : Member} (hm : m ∈ (parse uri source).members)
    (visited : m.kind ∈ TypeSite.walk.order) : m.kind ∈ [MemberKind.message, .extend] := by
  have top := kind_of_mem_members hm
  revert top visited
  cases m.kind <;> decide

/-- The references of a file are those of its members and those of its services. -/
theorem perm_memberReferences (f : SchemaFile) :
    (f.members.flatMap (Member.references f.packageName) ++
      f.services.flatMap fun s => s.rpcs.flatMap (Rpc.references f.packageName)).Perm
      f.references :=
  f.perm_items (Item.references f.packageName) fun i => by cases i <;> trivial

/-- **The references that are listed are all references of the file**, each once. -/
theorem perm_references (uri source : Text) :
    (parse uri source).typeSites.Perm (parse uri source).references := by
  have all : ∀ m ∈ (parse uri source).members, m.kind ∈ [MemberKind.message, .extend] ∨
      TypeSite.walk.member (parse uri source).packageName m = [] := fun m hm =>
    (TypeSite.visited_or_silent _ m).imp_left (message_or_extend hm)
  have members := Walk.perm_body (by decide) all fun m _ => TypeSite.perm_member _ m
  refine List.Perm.trans ?_ (perm_memberReferences _)
  refine List.Perm.trans ?_ (members.append_right _)
  rw [typeSites, messageSites, extendSites, Walk.file, Walk.file, List.append_assoc]
  change List.Perm _ (Walk.inOrder ([.message] ++ [.extend]) _ ++ _)
  rw [Walk.inOrder_append, List.append_assoc]
  exact List.perm_append_comm.append_left _

end SchemaFile

/-! ### Written names lie one behind the other -/

/-- Names that are written on tokens, one behind the other. -/
abbrev Name.InRow (w : List Token) (names : List Name) : Prop :=
  Row (fun v n => Token.Covers v n.span) w names

/-- **Names in a row do not share a span**: each begins behind the end of the one before. -/
theorem Name.InRow.nodup_spans {w : List Token} {names : List Name} (row : Name.InRow w names)
    (sorted : Token.Sorted w) : (names.map (·.span)).Nodup := by
  induction row with
  | nil => exact List.nodup_nil
  | @cons u v w n names here rest ih =>
    have behind : Token.Sorted (v ++ w) := sorted.sublist (List.sublist_append_right u _)
    have proper := here.proper (behind.sublist (List.sublist_append_left v w))
    refine List.nodup_cons.2 ⟨fun again => ?_, ih (behind.sublist (List.sublist_append_right v w))⟩
    obtain ⟨n', hn', (same : n'.span = n.span)⟩ := List.mem_map.1 again
    obtain ⟨v', sub, there⟩ := rest.of_mem hn'
    have after : n.span.stop ≤ n'.span.start :=
      here.stop_le_start there (behind.sublist (List.Sublist.append_left sub.sublist v))
    rw [same, Position.le_iff] at after
    rw [Position.lt_iff] at proper
    omega

theorem Spelled.inRow {w : List Token} {p : Spelling × Name} (h : Spelled w p) :
    Name.InRow w [p.2] := by
  obtain ⟨v, ⟨before, after, rfl⟩, covers, -⟩ := h
  have here : Name.InRow v [p.2] := .single covers
  exact (here.skip before).pass after

namespace Node

/-- The names and types that are written in a node and in all that is inside it. -/
def written (n : Node) : List Name := n.within.flatMap fun c => c.spellings.map (·.2)

theorem written_eq (n : Node) :
    n.written = n.spellings.map (·.2) ++ n.children.flatMap written := by
  rw [written, within_eq, List.flatMap_cons, List.flatMap_assoc]
  rfl

/-- **The names that are written in a node are a row** on its tokens. -/
theorem Laid.inRow_written {w : List Token} {n : Node} (h : Laid w n) :
    Name.InRow w n.written := by
  induction n using children_induction generalizing w with
  | step n ih =>
    obtain ⟨-, names, inner⟩ := h
    have own : Row (fun v p => Name.InRow v [p.2]) _ n.spellings :=
      names.imp fun p _ v spelled => spelled.inRow
    have below : Row (fun v c => Name.InRow v c.written) _ n.children :=
      inner.imp fun c hc v laid => ih c hc laid
    rw [written_eq, ← List.flatMap_singleton' (n.spellings.map (·.2)), List.flatMap_map]
    exact own.flatten.append below.flatten

/-- What is written in the nodes inside a node is written in the node. -/
theorem sublist_written (n : Node) : (n.children.flatMap written).Sublist n.written := by
  rw [written_eq]
  exact List.sublist_append_right _ _

end Node

/-! ### References share no span -/

/-- The types that a member refers to are written in it, in this order. -/
theorem Member.sublist_references (scope : Text) (m : Member) :
    ((m.references scope).map (·.type)).Sublist (Node.member m).written := by
  induction m using Member.inner_induction generalizing scope with
  | step m ih =>
    have inner : ((m.inner.flatMap (references (m.innerScope scope))).map (·.type)).Sublist
        ((m.inner.map Node.member).flatMap Node.written) := by
      rw [List.map_flatMap, List.flatMap_map]
      exact List.Sublist.flatMap_right _ fun c hc => ih c hc _
    have members : ((m.inner.map Node.member).flatMap Node.written).Sublist
        ((Node.member m).children.flatMap Node.written) := by
      cases m with
      | group head body =>
        rw [Node.children, List.flatMap_append]
        exact List.sublist_append_right _ _
      | oneof | message | extend => exact List.Sublist.refl _
      | _ => exact List.nil_sublist _
    have own : ((TypeSite.entering scope m).map (·.type)).Sublist
        ((Node.member m).spellings.map (·.2)) := by
      cases m <;> simp [TypeSite.entering, Node.spellings, Member.spellings]
    rw [references_eq, List.map_append, Node.written_eq]
    exact own.append (inner.trans members)

theorem Rpc.sublist_references (scope : Text) (r : Rpc) :
    ((r.references scope).map (·.type)).Sublist (Node.rpc r).written := by
  rw [Node.written_eq]
  refine List.Sublist.trans ?_ (List.sublist_append_left _ _)
  exact List.sublist_cons_self _ _

theorem Service.sublist_references (scope : Text) (s : Service) :
    ((s.rpcs.flatMap (Rpc.references scope)).map (·.type)).Sublist (Node.service s).written := by
  refine List.Sublist.trans ?_ (Node.service s).sublist_written
  rw [Node.children, List.map_flatMap, List.flatMap_map, Service.rpcs]
  induction s.members with
  | nil => exact List.Sublist.refl _
  | cons m rest ih =>
    rw [List.flatMap_cons]
    cases m with
    | rpc r => exact (r.sublist_references scope).append ih
    | option o => exact ih.trans (List.sublist_append_right _ _)

theorem Item.sublist_references (package : Text) (i : Item) :
    ((i.references package).map (·.type)).Sublist i.node.written := by
  cases i with
  | service s => exact s.sublist_references package
  | member m => exact m.sublist_references package
  | _ => exact List.nil_sublist _

namespace SchemaFile

/-- The names that are written in a file are a row on its tokens. -/
theorem inRow_written (uri source : Text) : Name.InRow (TokenStream.ofText source).tokens
    ((parse uri source).children.flatMap Node.written) :=
  Row.flatten ((row_children uri source).imp fun _ _ _ laid => laid.inRow_written)

/-- **No two references of a file share a span.** -/
theorem nodup_spans_typeSites (uri source : Text) :
    ((parse uri source).typeSites.map (·.type.span)).Nodup := by
  have apart := (inRow_written uri source).nodup_spans (TokenStream.sorted_tokens source)
  have among : (((parse uri source).references).map (·.type)).Sublist
      ((parse uri source).children.flatMap Node.written) := by
    rw [references, children, List.map_flatMap, List.flatMap_map]
    exact List.Sublist.flatMap_right _ fun i _ => i.sublist_references _
  have spans := apart.sublist (among.map (·.span))
  rw [List.map_map] at spans
  exact (((perm_references uri source).map _).nodup_iff).2 spans

end SchemaFile
end ProtoAtlas
