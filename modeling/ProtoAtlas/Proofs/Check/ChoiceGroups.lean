/-
# The groups of oneofs

A oneof opens no scope: a group in it declares a type beside the nested messages, the
enums and the groups of the body that the oneof stands in.  A check compares the names of
these without the groups of oneofs, and it looks for groups at the level `proto3` only
directly in bodies.  What is left of the two rules for the groups of oneofs comes from the
fields that groups declare: the names of these are distinct over the whole body, so the
names of groups are (`Check.BodyRules.nodup_groupNames`).  So the types of a body of a valid
file have distinct names unless a group of a oneof has the name of a nested message or an
enum (`valid_bodies_declare_distinct_types`), and such a file can be valid
(`choiceGroups_escape_the_rules`).
-/

import Mathlib.Data.List.Flatten
import ProtoAtlas.Proofs.Check.FileRules

namespace ProtoAtlas
namespace Member

/-- The groups in the oneofs of a body. -/
def choiceGroups (body : List Member) : List Group :=
  (oneofs body).flatMap fun o => groups o.body

/-- The groups of a body, those of its oneofs included. -/
def allGroups (body : List Member) : List Group :=
  groups body ++ choiceGroups body

/-- The names of the groups of a body, those of its oneofs included. -/
def groupNames (body : List Member) : List Text :=
  (allGroups body).map (·.head.name.text)

/-- The names of the enums and messages nested in a body. -/
def nestedNames (body : List Member) : List Text :=
  (enums body).map (·.name.text) ++ (messages body).map (·.head.name.text)

/-- The names of all types declared in the scope of a body. -/
def typeNames (body : List Member) : List Text :=
  nestedNames body ++ groupNames body

end Member

namespace Check

open Member

/-- The fields declared by the groups of a body, those of its oneofs included, are among
its fields. -/
theorem Slot.sublist_ofGroup (body : List Member) :
    ((allGroups body).map ofGroup).Sublist (ofBody body) := by
  have chosen : ((choiceGroups body).map ofGroup).Sublist ((oneofs body).flatMap ofOneof) := by
    rw [choiceGroups, List.map_flatMap]
    exact List.Sublist.flatMap_right _ fun o _ => List.sublist_append_right _ _
  rw [allGroups, List.map_append, ofBody]
  exact (List.sublist_append_right _ _).append chosen

namespace BodyRules

variable {level3 : Bool} {body : List Member}

/-- The enums, messages and groups that stand directly in a body have distinct names. -/
theorem nodup_direct (rules : BodyRules level3 body) :
    (nestedNames body ++ (Member.groups body).map (·.head.name.text)).Nodup := by
  have direct := rules.types
  simp only [nestedTypeNames, List.map_append, List.map_map] at direct
  exact direct

/-- **The groups of a body have distinct names**, those of its oneofs included.  Two groups
of one name would declare two fields of one name. -/
theorem nodup_groupNames (rules : BodyRules level3 body) : (groupNames body).Nodup := by
  have fields := rules.names.sublist ((Slot.sublist_ofGroup body).map (·.name))
  have lowered : (allGroups body).map ((·.name) ∘ Slot.ofGroup) =
      (groupNames body).map Text.lower := by
    rw [groupNames, List.map_map]
    rfl
  rw [List.map_map, lowered] at fields
  exact fields.of_map

/-- So the types of a body have distinct names unless a group of a oneof has the name of a
nested message or an enum. -/
theorem nodup_typeNames_iff (rules : BodyRules level3 body) : (typeNames body).Nodup ↔
    ∀ g ∈ choiceGroups body, g.head.name.text ∉ nestedNames body := by
  obtain ⟨nested, -, apart⟩ := List.nodup_append'.1 rules.nodup_direct
  rw [typeNames, List.nodup_append', and_iff_right nested, and_iff_right rules.nodup_groupNames,
    groupNames, allGroups, List.map_append, List.disjoint_append_right, and_iff_right apart]
  constructor
  · intro disjoint g hg clash
    exact disjoint clash (List.mem_map.2 ⟨g, hg, rfl⟩)
  · intro fresh name clash chosen
    obtain ⟨g, hg, rfl⟩ := List.mem_map.1 chosen
    exact fresh g hg clash

end BodyRules
end Check

/-- **Types of valid bodies.**  In every reachable session, if a check gives an answer
without errors, then a file is loaded under the URI, and in the body of every message and
group of it that is reached from its messages through messages, groups and oneofs: the
enums, messages and groups that stand directly in the body have distinct names; all groups,
those of oneofs included, have distinct names; the types of the body all have distinct names
if and only if no group of a oneof has the name of a nested message or an enum; and at the
level `proto3` no group stands directly in the body. -/
theorem valid_bodies_declare_distinct_types (s : Session) (h : s.Reachable) (uri : Text)
    (issues : List Issue) (checked : ((Check.file uri).run s).1 = some issues)
    (valid : Issue.errors issues = []) :
    ∃ r, s.workspace.file? uri = some r ∧
      ∀ scope m, r.tree.Reaches [.message] [.message, .group, .oneof] scope m →
        m.kind = .message ∨ m.kind = .group →
          (Member.nestedNames m.inner ++
            (Member.groups m.inner).map (·.head.name.text)).Nodup ∧
          (Member.groupNames m.inner).Nodup ∧
          ((Member.typeNames m.inner).Nodup ↔
            ∀ g ∈ Member.choiceGroups m.inner, g.head.name.text ∉ Member.nestedNames m.inner) ∧
          (r.tree.level? = some "proto3" → Member.groups m.inner = []) := by
  obtain ⟨r, loaded, rules⟩ := h.exists_fileRules checked valid
  refine ⟨r, loaded, fun scope m reached kind => ?_⟩
  have body := rules.bodies scope m reached kind
  refine ⟨body.nodup_direct, body.nodup_groupNames, body.nodup_typeNames_iff, fun level => ?_⟩
  exact body.noGroups (decide_eq_true level)

/-- A session with a message that declares types in all four ways. -/
def fourTypes : Session :=
  Session.empty.update (.ofText "u" <|
    "syntax = 'proto2' ; message M \x7b enum E \x7b X = 0 ; \x7d message N \x7b \x7d " ++
    "optional group G = 1 \x7b \x7d oneof o \x7b group H = 2 \x7b \x7d \x7d \x7d")

/-- They have distinct names, since the group of the oneof has one of its own. -/
theorem fourTypes_are_distinct : fourTypes.Reachable ∧
    ((Check.file "u").run fourTypes).1 = some [] ∧ Issue.errors [] = [] ∧
    ∃ r, fourTypes.workspace.file? "u" = some r ∧
      ∃ scope m, r.tree.Reaches [.message] [.message, .group, .oneof] scope m ∧
        m.kind = .message ∧ Member.typeNames m.inner = ["E", "N", "G", "H"] ∧
        (Member.typeNames m.inner).Nodup := by
  have reachable : fourTypes.Reachable := Session.Reachable.new.update "u" "u" _ none
  have checked : ((Check.file "u").run fourTypes).1 = some [] := by decide +kernel
  obtain ⟨r, loaded, distinct⟩ :=
    valid_bodies_declare_distinct_types fourTypes reachable "u" [] checked rfl
  have computed : ∀ r ∈ fourTypes.workspace.file? "u",
      ∃ p ∈ r.tree.reached [.message] [.message, .group, .oneof], p.2.kind = .message ∧
        Member.typeNames p.2.inner = ["E", "N", "G", "H"] ∧
        ∀ g ∈ Member.choiceGroups p.2.inner,
          g.head.name.text ∉ Member.nestedNames p.2.inner := by decide +kernel
  obtain ⟨⟨scope, m⟩, listed, kind, names, fresh⟩ := computed r loaded
  have reached := SchemaFile.mem_reached.1 listed
  obtain ⟨-, -, types, -⟩ := distinct scope m reached (Or.inl kind)
  exact ⟨reachable, checked, rfl, r, loaded, scope, m, reached, kind, names, types.2 fresh⟩

/-- A session with a message in which a nested message and a group of a oneof have one
name. -/
def sharedTypeName : Session :=
  Session.empty.update (.ofText "u" <|
    "syntax = 'proto2' ; message M \x7b message G \x7b \x7d " ++
    "oneof o \x7b group G = 1 \x7b \x7d \x7d \x7d")

/-- A session with a file at the level `proto3` in which a oneof has a group. -/
def chosenGroup : Session :=
  Session.empty.update (.ofText "u" <|
    "syntax = 'proto3' ; message M \x7b oneof o \x7b group G = 1 \x7b \x7d \x7d \x7d")

/-- **The groups of oneofs escape the rules.**  The checks of two files find nothing, though
two types of one body have the same name in the first, and a oneof has a group at the level
`proto3` in the second. -/
theorem choiceGroups_escape_the_rules :
    (sharedTypeName.Reachable ∧ ((Check.file "u").run sharedTypeName).1 = some [] ∧
      ∃ r, sharedTypeName.workspace.file? "u" = some r ∧
        ∃ scope m, r.tree.Reaches [.message] [.message, .group, .oneof] scope m ∧
          m.kind = .message ∧ ¬ (Member.typeNames m.inner).Nodup) ∧
    (chosenGroup.Reachable ∧ ((Check.file "u").run chosenGroup).1 = some [] ∧
      ∃ r, chosenGroup.workspace.file? "u" = some r ∧ r.tree.level? = some "proto3" ∧
        ∃ scope m, r.tree.Reaches [.message] [.message, .group, .oneof] scope m ∧
          m.kind = .message ∧ Member.choiceGroups m.inner ≠ []) := by
  constructor
  · have computed : ∃ r ∈ sharedTypeName.workspace.file? "u",
        ∃ p ∈ r.tree.reached [.message] [.message, .group, .oneof],
          p.2.kind = .message ∧ ¬ (Member.typeNames p.2.inner).Nodup := by decide +kernel
    obtain ⟨r, loaded, ⟨scope, m⟩, listed, kind, twice⟩ := computed
    exact ⟨Session.Reachable.new.update "u" "u" _ none, by decide +kernel, r, loaded, scope, m,
      SchemaFile.mem_reached.1 listed, kind, twice⟩
  · have computed : ∃ r ∈ chosenGroup.workspace.file? "u", r.tree.level? = some "proto3" ∧
        ∃ p ∈ r.tree.reached [.message] [.message, .group, .oneof],
          p.2.kind = .message ∧ (Member.choiceGroups p.2.inner).isEmpty = false := by
      decide +kernel
    obtain ⟨r, loaded, level, ⟨scope, m⟩, listed, kind, some⟩ := computed
    exact ⟨Session.Reachable.new.update "u" "u" _ none, by decide +kernel, r, loaded, level, scope,
      m, SchemaFile.mem_reached.1 listed, kind, List.isEmpty_eq_false_iff.1 some⟩

end ProtoAtlas
