/-
# A check and the search for references see the same references

A check goes through the tree of a file on its own, and so does the search for references, each
with a scope of its own.  Both see, up to order, every reference that is written in the file,
once, in the scope that the declarations around it make (`Check.perm_typeReferences`,
`SchemaFile.perm_references`).

A check then reports a type as unknown exactly at the references that resolve to nothing, but
for scalar types: a field may have one, a procedure with one is reported in other words, and as
the target of an extend block a scalar type is no known type
(`Check.filter_saysUnknown_foundAt`).
-/

import ProtoAtlas.Proofs.Check.FileRules

namespace ProtoAtlas

/-! ### Unknown types -/

/-- Whether a finding says in words that a type is unknown. -/
def Finding.saysUnknown (x : Finding) : Bool :=
  x.problem.message?.any fun message => ("Unknown type '" : Text).isPrefixOf message

/-- Whether a reference that resolves to the given symbol, or to none, has an unknown type: it
resolves to none, and it is the target of an extend block or its type is not scalar. -/
def TypeSite.isUnknown (site : TypeSite) (found : Option Symbol) : Bool :=
  found.isNone && (decide (site.role = .extendTarget) || !scalarTypes.contains site.type.text)

/-- A scalar type is known, but as the target of an extend block. -/
theorem TypeSite.isUnknown_of_scalar {site : TypeSite} (other : site.role ≠ .extendTarget)
    (scalar : scalarTypes.contains site.type.text = true) (found : Option Symbol) :
    site.isUnknown found = false := by
  rw [isUnknown, decide_eq_false other, scalar]
  exact Bool.and_false _

/-- The finding that the type of a reference is unknown. -/
def TypeSite.unknown (site : TypeSite) : Finding :=
  (Problem.typeUnknown site.type.text).at site.type.span

theorem TypeSite.saysUnknown_unknown (site : TypeSite) : site.unknown.saysUnknown = true := by
  have worded : site.unknown.problem.message? =
      some (("Unknown type '" : Text) ++ (site.type.text ++ "'")) := by
    rw [← List.append_assoc]
    rfl
  rw [Finding.saysUnknown, worded, Option.any_some, List.isPrefixOf_iff_prefix]
  exact List.prefix_append _ _

namespace Check

open Query Session

variable {w : Workspace} {uri : Text}

/-- Of what is wrong with a type, only that it resolves to none makes it unknown. -/
theorem filter_saysUnknown_resolved (site : TypeSite) {judge : Symbol → List Finding}
    (known : ∀ t, (judge t).filter (·.saysUnknown) = []) :
    ((resolved uri site.scope site.type judge).answer w).filter (·.saysUnknown) =
      if ((resolveType site.type.text uri (some site.scope)).answer w).isNone then
        [site.unknown] else [] := by
  rw [answer_resolved]
  cases (resolveType site.type.text uri (some site.scope)).answer w with
  | none => exact List.filter_cons_of_pos site.saysUnknown_unknown
  | some t => exact known t

theorem filter_saysUnknown_findIf {condition : Bool} {p : Problem} {span : Span}
    (known : (p.at span).saysUnknown = false) :
    (findIf condition p span).filter (·.saysUnknown) = [] := by
  rw [List.filter_eq_nil_iff]
  intro x hx
  obtain ⟨-, rfl⟩ := mem_findIf.1 hx
  simp [known]

/-- **A type is reported as unknown if it resolves to none**, and as the type of a field or a
procedure only if it is not scalar. -/
theorem filter_saysUnknown_foundAt (site : TypeSite) :
    (foundAt w uri site).filter (·.saysUnknown) =
      if site.isUnknown ((resolveType site.type.text uri (some site.scope)).answer w) then
        [site.unknown] else [] := by
  have judged : (decide (site.role = .extendTarget) ||
      !scalarTypes.contains site.type.text) = true →
        site.isUnknown ((resolveType site.type.text uri (some site.scope)).answer w) =
          ((resolveType site.type.text uri (some site.scope)).answer w).isNone := by
    intro judged
    rw [TypeSite.isUnknown, judged, Bool.and_true]
  obtain ⟨type, scope, role⟩ := site
  cases role with
  | field =>
    rw [foundAt_field]
    split
    · next scalar =>
      rw [TypeSite.isUnknown_of_scalar (by simp) scalar]
      rfl
    · next declared =>
      rw [judged (by simpa using declared)]
      exact filter_saysUnknown_resolved ⟨type, scope, .field⟩ fun _ => rfl
  | extendTarget =>
    rw [judged rfl]
    exact filter_saysUnknown_resolved ⟨type, scope, .extendTarget⟩ fun _ =>
      filter_saysUnknown_findIf rfl
  | rpc name =>
    rw [foundAt_rpc]
    split
    · next scalar =>
      rw [TypeSite.isUnknown_of_scalar (by simp) scalar]
      rfl
    · next declared =>
      rw [judged (by simpa using declared)]
      exact filter_saysUnknown_resolved ⟨type, scope, .rpc name⟩ fun _ =>
        filter_saysUnknown_findIf rfl

/-- The unknown types that are reported in a file. -/
theorem perm_unknown {f : SchemaFile} (parsed : f.Parsed) :
    (((typeReferences uri f).answer w).filter (·.saysUnknown)).Perm
      ((f.typeSites.filter fun site =>
        site.isUnknown ((resolveType site.type.text uri (some site.scope)).answer w)).map
          (·.unknown)) := by
  refine ((perm_typeReferences parsed w uri).filter _).trans (List.Perm.of_eq ?_)
  rw [List.filter_flatMap]
  simp only [filter_saysUnknown_foundAt]
  induction f.typeSites with
  | nil => rfl
  | cons site rest ih =>
    rw [List.flatMap_cons, ih, List.filter_cons]
    split
    · rfl
    · rfl

end Check

/-- **A check and the search for references see the same references.**  In every reachable
session, for every loaded file: the findings of its check that say that a type is unknown are,
up to order, one for each reference that the search looks at and that resolves to nothing in
its scope, if it is the target of an extend block or its type is not scalar; each names the type
as it is written and stands where it is written.  And what the search looks at is, up to order,
every reference of the file in source order, once, in the scope that the declarations around it
make. -/
theorem unknown_types_are_unresolved_references (s : Session) (h : s.Reachable) (uri : Text)
    (r : FileRecord) (loaded : s.workspace.file? uri = some r) :
    ((((Check.typeReferences uri r.tree).run s).1).filter (·.saysUnknown)).Perm
      ((r.tree.typeSites.filter fun site => site.isUnknown
        ((Session.resolveType site.type.text uri (some site.scope)).run s).1).map (·.unknown)) ∧
    r.tree.typeSites.Perm r.tree.references := by
  have resolved : ∀ site : TypeSite,
      ((Session.resolveType site.type.text uri (some site.scope)).run s).1 =
        (Session.resolveType site.type.text uri (some site.scope)).answer s.workspace :=
    fun site => h.answer (.resolveType _ _ _)
  have parsed := h.parsed r (List.mem_of_find?_eq_some loaded)
  constructor
  · rw [(Check.looks_typeReferences uri r.tree).stable.value s h.faithful]
    simp only [resolved]
    exact Check.perm_unknown parsed
  · obtain ⟨treeUri, source, tree⟩ := parsed
    rw [tree]
    exact SchemaFile.perm_references treeUri source

namespace ScalarTarget

/-- A file that refers to one scalar type in a group of a oneof, as the target of an extend
block, and in a procedure. -/
def record : FileRecord :=
  .ofText "u" <|
    "message M \x7b oneof o \x7b group G = 1 \x7b int32 a = 1 ; \x7d \x7d \x7d " ++
    "extend int32 \x7b \x7d service S \x7b rpc R ( int32 ) returns ( int32 ) ; \x7d"

/-- A session with this file alone. -/
def session : Session := Session.empty.update record

/-- Of all references to the scalar type, only the target of the extend block is unknown. -/
theorem scalar_target_is_unknown : session.Reachable ∧
    session.workspace.file? "u" = some record ∧
    ((Check.typeReferences "u" record.tree).run session).1.filter (·.saysUnknown) =
      [(Problem.typeUnknown "int32").at ⟨⟨0, 63⟩, ⟨0, 68⟩⟩] := by
  have reachable : session.Reachable := Session.Reachable.new.update _ _ _ none
  have scalar : ∀ site ∈ record.tree.typeSites, site.type.text ∈ scalarTypes := by decide +kernel
  have unresolved : ∀ site ∈ record.tree.typeSites,
      ((Session.resolveType site.type.text "u" (some site.scope)).run session).1 = none := by
    intro site hsite
    rw [reachable.answer (.resolveType _ _ _)]
    exact Check.answer_resolveType_scalar (scalar site hsite) _
  have unknown : (record.tree.typeSites.filter (·.isUnknown none)).map (·.unknown) =
      [(Problem.typeUnknown "int32").at ⟨⟨0, 63⟩, ⟨0, 68⟩⟩] := by decide +kernel
  obtain ⟨same, -⟩ := unknown_types_are_unresolved_references session reachable "u" record rfl
  have sites : (record.tree.typeSites.filter fun site => site.isUnknown
      ((Session.resolveType site.type.text "u" (some site.scope)).run session).1) =
      record.tree.typeSites.filter (·.isUnknown none) :=
    List.filter_congr fun site hsite => by rw [unresolved site hsite]
  rw [sites, unknown] at same
  exact ⟨reachable, rfl, List.perm_singleton.1 same⟩

end ScalarTarget
end ProtoAtlas
