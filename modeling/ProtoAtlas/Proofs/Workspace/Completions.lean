/-
# The types to offer

The types to offer in a file are three lists one behind the other, of which the first element
of each full name is kept: the types the file sees that are declared along the scope, all types
it sees, and all loaded types.  Keeping first elements of joined lists keeps those of the first
list, and of each later list what the lists before it do not name (`exists_distinctBy_append`).  So
every loaded type is offered under its full name once, and the three groups stand in order,
however often a full name is declared and in whichever files
(`completions_are_complete_and_ordered`).
-/

import ProtoAtlas.Proofs.Workspace.TypeRule
import ProtoAtlas.Proofs.Workspace.VisitOrder

namespace ProtoAtlas

/-! ### First elements of joined lists -/

section Distinct

variable {α : Type} (key : α → Text)

theorem distinctBy_sublist (xs : List α) : (distinctBy key xs).Sublist xs := by
  induction xs with
  | nil => exact List.Sublist.refl _
  | cons a rest ih => exact (List.filter_sublist.trans ih).cons_cons a

/-- Of the second of two lists, what the first one has keys for is left out. -/
theorem exists_distinctBy_append (xs ys : List α) : ∃ later,
    distinctBy key (xs ++ ys) = distinctBy key xs ++ later ∧
      ∀ b ∈ later, b ∈ ys ∧ ∀ a ∈ xs, key a ≠ key b := by
  induction xs with
  | nil =>
    exact ⟨distinctBy key ys, rfl, fun b mem => ⟨(distinctBy_sublist key ys).subset mem, by simp⟩⟩
  | cons a rest ih =>
    obtain ⟨later, split, fresh⟩ := ih
    refine ⟨later.filter (key · ≠ key a), ?_, fun b mem => ?_⟩
    · rw [List.cons_append, distinctBy, distinctBy, split, List.filter_append, List.cons_append]
    · obtain ⟨mem, other⟩ := List.mem_filter.1 mem
      refine ⟨(fresh b mem).1, fun c hc => ?_⟩
      rcases List.mem_cons.1 hc with rfl | hc
      · exact Ne.symm (of_decide_eq_true other)
      · exact (fresh b mem).2 c hc

end Distinct

/-! ### Types along a scope -/

/-- A symbol is declared along a scope: what it is declared in is the join of a beginning of
the scope's parts.  The empty scope has no parts. -/
def Symbol.Along (scope : Text) (t : Symbol) : Prop :=
  scope ≠ [] ∧ ∃ parts, parts ≠ [] ∧ parts <+: scope.splitOn nameDot ∧
    t.container.getD [] = Text.join [nameDot] parts

theorem mem_scopeBeginnings {scope outer : Text} : outer ∈ scopeBeginnings scope ↔
    scope ≠ [] ∧ ∃ parts, parts ≠ [] ∧ parts <+: scope.splitOn nameDot ∧
      outer = Text.join [nameDot] parts := by
  unfold scopeBeginnings
  by_cases empty : scope = []
  · simp [empty]
  · rw [if_neg empty, List.mem_reverse, List.mem_map]
    have beginnings : ∀ parts, parts ∈ (scope.splitOn nameDot).inits.tail ↔
        parts ≠ [] ∧ parts <+: scope.splitOn nameDot := by
      intro parts
      cases pieces : scope.splitOn nameDot with
      | nil => exact absurd pieces (Text.splitOn_ne_nil _ _)
      | cons first rest =>
        rw [List.inits_cons, List.tail_cons, List.mem_map]
        constructor
        · rintro ⟨more, start, rfl⟩
          exact ⟨by simp, List.cons_prefix_cons.2 ⟨rfl, (List.mem_inits _ _).1 start⟩⟩
        · rintro ⟨nonempty, start⟩
          obtain ⟨more, rfl⟩ : ∃ more, parts = first :: more := by
            cases parts with
            | nil => exact absurd rfl nonempty
            | cons part more => exact ⟨more, by rw [(List.cons_prefix_cons.1 start).1]⟩
          exact ⟨more, (List.mem_inits _ _).2 (List.cons_prefix_cons.1 start).2, rfl⟩
    simp only [beginnings, empty, ne_eq, not_false_eq_true, true_and]
    constructor
    · rintro ⟨parts, ⟨nonempty, start⟩, rfl⟩
      exact ⟨parts, nonempty, start, rfl⟩
    · rintro ⟨parts, nonempty, start, rfl⟩
      exact ⟨parts, ⟨nonempty, start⟩, rfl⟩

namespace Workspace

open Query Session

/-- The types that a file sees: those of the loaded files that a chain of imports leads to. -/
def SeesType (w : Workspace) (uri : Text) (t : Symbol) : Prop :=
  t.isType = true ∧ w.IsLoaded uri ∧
    ∃ v, Relation.ReflTransGen w.Imports uri v ∧ t ∈ w.symbolsIn v

/-- What a file sees is loaded. -/
theorem SeesType.hasType {w : Workspace} {uri : Text} {t : Symbol} (h : w.SeesType uri t) :
    w.HasType t := by
  obtain ⟨type, -, v, -, declared⟩ := h
  refine ⟨?_, type⟩
  unfold symbolsIn at declared
  split at declared
  · cases declared
  · next r found => exact List.mem_flatMap.2 ⟨r, List.mem_of_find?_eq_some found, declared⟩

/-! ### The three lists -/

/-- All loaded types. -/
def loadedTypes (w : Workspace) : List Symbol := w.allSymbols.filter (·.isType)

/-- The types that a file sees, in the order of the search. -/
def seenTypes (w : Workspace) (uri : Text) : List Symbol :=
  ((accessibleSymbols uri).answer w).filter (·.isType)

/-- The types that a file sees and that are declared along a scope. -/
def typesAlong (w : Workspace) (uri scope : Text) : List Symbol :=
  (w.seenTypes uri).filter fun t => (scopeBeginnings scope).contains (t.container.getD [])

variable {w : Workspace} {uri scope : Text} {t : Symbol}

theorem mem_loadedTypes : t ∈ w.loadedTypes ↔ w.HasType t := List.mem_filter

theorem mem_seenTypes : t ∈ w.seenTypes uri ↔ w.SeesType uri t := by
  rw [seenTypes, List.mem_filter, answer_accessibleSymbols, List.mem_flatMap]
  constructor
  · rintro ⟨⟨v, visible, declared⟩, type⟩
    obtain ⟨loaded, way⟩ := mem_visibleUris.1 visible
    exact ⟨type, loaded, v, way, declared⟩
  · rintro ⟨type, loaded, v, way, declared⟩
    exact ⟨⟨v, mem_visibleUris.2 ⟨loaded, way⟩, declared⟩, type⟩

theorem mem_typesAlong : t ∈ w.typesAlong uri scope ↔ w.SeesType uri t ∧ t.Along scope := by
  rw [typesAlong, List.mem_filter, mem_seenTypes, List.contains_iff_mem, mem_scopeBeginnings]
  rfl

/-- The types to offer are three lists, of which the first element of each full name is
kept. -/
theorem answer_completions (w : Workspace) (uri : Text) (scope : Option Text) :
    (completions uri scope).answer w = distinctBy (·.fullName)
      (w.typesAlong uri (scope.getD (w.packageOf uri)) ++ w.seenTypes uri ++ w.loadedTypes) := by
  rw [completions, answer_current_bind, typesAlong, ← enclosingScopes_eq]
  exact answer_bind (looks_accessibleSymbols uri)
    (fun _ => .current (fun h => by rw [h.allSymbols]) fun _ => .pure _) w

/-- The full names that are offered are those of the loaded types. -/
theorem mem_names_completions {scope : Option Text} {name : Text} :
    name ∈ ((completions uri scope).answer w).map (·.fullName) ↔ ∃ t, w.TypeNamed name t := by
  rw [answer_completions, mem_map_distinctBy, List.mem_map]
  constructor
  · rintro ⟨t, mem, same⟩
    rw [List.mem_append, List.mem_append, mem_typesAlong, mem_seenTypes, mem_loadedTypes] at mem
    rcases mem with (⟨sees, -⟩ | sees) | loaded
    · exact ⟨t, sees.hasType, same⟩
    · exact ⟨t, sees.hasType, same⟩
    · exact ⟨t, loaded, same⟩
  · rintro ⟨t, loaded, same⟩
    exact ⟨t, List.mem_append_right _ (mem_loadedTypes.2 loaded), same⟩

/-- **The types offered come in three groups**: those along the scope, others that the file sees,
and others that are loaded. -/
theorem exists_groups_completions (w : Workspace) (uri : Text) (scope : Option Text) :
    ∃ inner outer others, (completions uri scope).answer w = inner ++ outer ++ others ∧
      (∀ t ∈ inner, w.SeesType uri t ∧ t.Along (scope.getD (w.packageOf uri))) ∧
      (∀ t ∈ outer, w.SeesType uri t ∧ ∀ t', w.SeesType uri t' → t'.fullName = t.fullName →
        ¬ t'.Along (scope.getD (w.packageOf uri))) ∧
      (∀ t ∈ others, w.HasType t ∧ ∀ t', w.SeesType uri t' → t'.fullName ≠ t.fullName) := by
  rw [answer_completions]
  generalize scope.getD (w.packageOf uri) = scope
  obtain ⟨others, split, unseen⟩ := exists_distinctBy_append (·.fullName)
    (w.typesAlong uri scope ++ w.seenTypes uri) w.loadedTypes
  obtain ⟨outer, split', unlisted⟩ := exists_distinctBy_append (·.fullName)
    (w.typesAlong uri scope) (w.seenTypes uri)
  refine ⟨_, outer, others, by rw [split, split'], fun t mem => ?_, fun t mem => ?_,
    fun t mem => ?_⟩
  · exact mem_typesAlong.1 ((distinctBy_sublist _ _).subset mem)
  · obtain ⟨mem, other⟩ := unlisted t mem
    exact ⟨mem_seenTypes.1 mem, fun t' sees same along =>
      other t' (mem_typesAlong.2 ⟨sees, along⟩) same⟩
  · obtain ⟨mem, other⟩ := unseen t mem
    exact ⟨mem_loadedTypes.1 mem, fun t' sees =>
      other t' (List.mem_append_right _ (mem_seenTypes.2 sees))⟩

end Workspace

/-- **The types to offer are complete, distinct and in order.**  In every reachable session, for
every URI and scope, no full name is offered twice, and the full names offered are those of the
loaded types.  First come types the file sees that are declared along the scope; then types it
sees whose full name no type it sees along the scope has; and then types whose full name no type
it sees has.  What a file sees are the accessible symbols.  Without a scope the package of the
file is the scope. -/
theorem completions_are_complete_and_ordered (s : Session) (h : s.Reachable) (uri : Text)
    (scope : Option Text) :
    let w := s.workspace
    let offered := ((Session.completions uri scope).run s).1
    let Along := Symbol.Along (scope.getD (w.packageOf uri))
    (∀ t, t ∈ ((Session.accessibleSymbols uri).run s).1 ∧ t.isType = true ↔ w.SeesType uri t) ∧
    (offered.map (·.fullName)).Nodup ∧
    (∀ name, name ∈ offered.map (·.fullName) ↔ ∃ t, w.TypeNamed name t) ∧
    ∃ inner outer others, offered = inner ++ outer ++ others ∧
      (∀ t ∈ inner, w.SeesType uri t ∧ Along t) ∧
      (∀ t ∈ outer, w.SeesType uri t ∧
        ∀ t', w.SeesType uri t' → t'.fullName = t.fullName → ¬ Along t') ∧
      (∀ t ∈ others, w.HasType t ∧ ∀ t', w.SeesType uri t' → t'.fullName ≠ t.fullName) := by
  intro w offered Along
  have found : offered = (Session.completions uri scope).answer w :=
    h.answer (.completions uri scope)
  rw [found, h.answer (.accessibleSymbols uri)]
  refine ⟨fun t => ?_, ?_, fun name => Workspace.mem_names_completions,
    Workspace.exists_groups_completions w uri scope⟩
  · rw [← Workspace.mem_seenTypes, Workspace.seenTypes, List.mem_filter]
  · rw [Workspace.answer_completions]
    exact nodup_map_distinctBy _ _

namespace Shadowed

/-- A file, a file it imports, and one it does not see, which declares a type of the first file
again. -/
def session : Session :=
  ((Session.empty.update (.ofText "a" "package p ; import 'b' ; message M \x7b \x7d")).update
    (.ofText "b" "package r ; message N \x7b \x7d")).update
    (.ofText "c" "package p ; enum M \x7b X = 0 ; \x7d message Z \x7b \x7d")

/-- Every type is offered, and the one that is declared twice only once. -/
theorem every_type_is_offered_once : session.Reachable ∧
    (((Session.completions "a" none).run session).1.map (·.fullName)).Nodup ∧
    ("p.M" : Text) ∈ ((Session.completions "a" none).run session).1.map (·.fullName) ∧
    ("r.N" : Text) ∈ ((Session.completions "a" none).run session).1.map (·.fullName) ∧
    ("p.Z" : Text) ∈ ((Session.completions "a" none).run session).1.map (·.fullName) := by
  have reachable : session.Reachable :=
    ((Session.Reachable.new.update _ _ _ none).update _ _ _ none).update _ _ _ none
  obtain ⟨-, once, offered, -⟩ :=
    completions_are_complete_and_ordered session reachable "a" none
  have declared : ∀ {name : Text},
      (∃ t ∈ session.workspace.allSymbols, t.isType = true ∧ t.fullName = name) →
        name ∈ ((Session.completions "a" none).run session).1.map (·.fullName) := by
    rintro name ⟨t, loaded, type, same⟩
    exact (offered name).2 ⟨t, ⟨loaded, type⟩, same⟩
  exact ⟨reachable, once, declared (by decide +kernel), declared (by decide +kernel),
    declared (by decide +kernel)⟩

end Shadowed

end ProtoAtlas
