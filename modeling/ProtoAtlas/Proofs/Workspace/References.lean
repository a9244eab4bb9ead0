/-
# Finding references is exact

A reference counts for a name if its type resolves to a symbol with that full name or that
simple name, or resolves to nothing and is written like the name (`Workspace.Counts`).
Simple names are looked up in the index, so this needs that the index is exact: types with
one full name stand under one simple name, and all of them are found there.

A reference is told by its location alone.  The files have distinct URIs, and no two
references of a file share a span, so a location is found if and only if the reference at
it counts, and none is found twice.
-/

import ProtoAtlas.Proofs.Symbol.Referred
import ProtoAtlas.Proofs.Workspace.Located
import ProtoAtlas.Proofs.Workspace.TypeRule

namespace ProtoAtlas

theorem Query.answer_filterMapM {α β : Type} {f : α → Query (Option β)} (h : ∀ a, Looks (f a))
    (xs : List α) (w : Workspace) :
    (xs.filterMapM f).answer w = xs.filterMap fun a => (f a).answer w := by
  induction xs with
  | nil => rfl
  | cons a rest ih =>
    have more : Looks (rest.filterMapM f) := .filterMapM h
    rw [List.filterMapM_cons, answer_bind (h a), List.filterMap_cons]
    · cases (f a).answer w with
      | none => exact ih
      | some b =>
        refine (answer_bind more (fun bs => .pure _) w).trans ?_
        rw [ih]
        rfl
    · intro b
      cases b with
      | none => exact more
      | some b => exact more.bind fun bs => .pure _

/-! ### Loaded trees and their symbols -/

namespace SchemaFile

/-- A name that is written as a word is not empty. -/
theorem Writes.word_ne_nil {uri source : Text} {name : Name}
    (h : (parse uri source).Writes (.word, name)) : name.text ≠ [] := by
  obtain ⟨v, sub, -, t, rfl, kind, text⟩ := h.exists_fits
  have lexed := Token.lexed_of_mem_tokens (sub.subset (List.mem_singleton_self t))
  have identifier : t.text.isIdentifier = true := Lexeme.Lexed.identifier lexed kind
  rw [text]
  intro none
  rw [none] at identifier
  cases identifier

theorem name_ne_nil_of_mem_symbols {uri treeUri source : Text} {t : Symbol}
    (h : t ∈ (parse treeUri source).symbols uri) : t.name ≠ [] := by
  rcases names_or_isGroupField h with
    ⟨kind, scope, name, info, writes, rfl⟩ | ⟨scope, head, body, has, rfl⟩
  · exact writes.word_ne_nil
  · have writes : (parse treeUri source).Writes (.word, head.name) :=
      ⟨_, has, List.mem_cons_self⟩
    exact fun none => writes.word_ne_nil (List.map_eq_nil_iff.1 none)

end SchemaFile

theorem dotFree_simpleName (name : Text) : (simpleName name).DotFree := by
  intro c hc
  rw [simpleName, List.mem_reverse] at hc
  simpa using List.mem_takeWhile_imp hc

/-! ### What a name asks for -/

theorem Preferred.exists_of_some {α : Type} {ps : List (α → Prop)} {a : α}
    (h : Preferred ps (some a)) : ∃ p ∈ ps, p a := by
  generalize chosen : some a = o at h
  induction h with
  | none => cases chosen
  | here has =>
    cases chosen
    exact ⟨_, List.mem_cons_self, has⟩
  | later _ _ ih =>
    obtain ⟨p, hp, has⟩ := ih chosen
    exact ⟨p, List.mem_cons_of_mem _ hp, has⟩

namespace Workspace

open Query Session

/-- The empty name and scalar types resolve to nothing. -/
theorem declared_of_resolveType {w : Workspace} {name uri : Text} {scope : Option Text}
    {t : Symbol} (found : (resolveType name uri scope).answer w = some t) :
    name ≠ [] ∧ name ∉ scalarTypes := by
  refine not_or.1 fun builtin => ?_
  rw [resolveType, answer_current_bind, answer_ite, if_pos (by simpa using builtin)] at found
  cases found

namespace Indexed

variable {w : Workspace} (h : w.Indexed)
include h

/-- **A type that a name resolves to is loaded.** -/
theorem hasType_of_resolveType {name uri : Text} {scope : Option Text} {t : Symbol}
    (found : (resolveType name uri scope).answer w = some t) : w.HasType t := by
  obtain ⟨nonempty, declared⟩ := declared_of_resolveType found
  by_cases absolute : name.head? = some nameDot
  · rw [resolveType, answer_current_bind, answer_ite, if_neg (by simp [nonempty, declared]),
      answer_ite, if_pos absolute, answer_pure] at found
    obtain ⟨p, hp, has⟩ := (found ▸ h.preferred_type? name.tail).exists_of_some
    rw [List.mem_singleton.1 hp] at has
    exact has.1
  rw [answer_resolveType w nonempty declared absolute] at found
  have inScope := h.preferred_typeInScope? (scope.getD (w.packageOf uri)) name
  cases first : w.index.typeInScope? (scope.getD (w.packageOf uri)) name with
  | some t' =>
    rw [first] at found inScope
    cases found
    obtain ⟨p, hp, has⟩ := inScope.exists_of_some
    rcases List.mem_append.1 hp with hp | hp
    · obtain ⟨outer, -, rfl⟩ := List.mem_map.1 hp
      exact has.1
    · rw [List.mem_singleton.1 hp] at has
      exact has.1
  | none =>
    rw [first, Option.none_or] at found
    rw [first] at inScope
    have none := inScope.empty_of_none (w.TypeNamed name) (by simp)
    obtain ⟨p, hp, has⟩ := (found ▸ h.preferred_standIn none uri).exists_of_some
    simp only [List.mem_cons, List.not_mem_nil, or_false] at hp
    rcases hp with rfl | rfl | rfl
    · exact has.1.1
    · exact has.1.1
    · exact has.1.1

/-- **A name asks for the loaded types with that full name or that simple name.** -/
theorem fullName_mem_targets {t : Symbol} (loaded : w.HasType t) (name : Text) :
    t.fullName ∈ w.index.targets name ↔ name = t.fullName ∨ name = t.name := by
  unfold SymbolIndex.targets
  split
  · next dotted =>
    -- A name with a dot is no simple name.
    have other : name ≠ t.name := by
      rintro rfl
      rw [h.name_eq loaded.1, List.contains_iff_mem] at dotted
      exact dotFree_simpleName _ _ dotted rfl
    rw [List.mem_singleton]
    exact ⟨fun same => Or.inl same.symm, fun asked => (asked.resolve_right other).symm⟩
  · rw [List.mem_append, List.mem_map, List.mem_singleton]
    constructor
    · rintro (⟨u, hu, same⟩ | same)
      · obtain ⟨hu, its⟩ := h.mem_named.1 (List.mem_filter.1 hu).1
        exact Or.inr (its.symm.trans (h.distinguished u hu t loaded.1 same))
      · exact Or.inl same.symm
    · rintro (same | same)
      · exact Or.inr same.symm
      · exact Or.inl ⟨t, List.mem_filter.2 ⟨h.mem_named.2 ⟨loaded.1, same.symm⟩, loaded.2⟩, rfl⟩

end Indexed

/-! ### The references that count -/

/-- A name written in a file is another or ends with it, or the other way round. -/
def WrittenLike (written name : Text) : Prop :=
  written = name ∨ (nameDot :: name) <:+ written ∨ (nameDot :: written) <:+ name

/-- A reference in a file counts for a name: its type resolves to a symbol with this full
name or this simple name, or resolves to nothing and is written like the name. -/
def Counts (w : Workspace) (name uri : Text) (site : TypeSite) : Prop :=
  site.type.text ∉ scalarTypes ∧
    match (resolveType site.type.text uri (some site.scope)).answer w with
    | some t => name = t.fullName ∨ name = t.name
    | none => WrittenLike (absoluteName site.type.text) name

theorem writtenLike_iff {written name : Text} :
    writtenLike written name = true ↔ WrittenLike written name := by
  rw [writtenLike, Bool.or_eq_true, Bool.or_eq_true, decide_eq_true_eq, endsWithName, endsWithName,
    List.isSuffixOf_iff_suffix, List.isSuffixOf_iff_suffix, or_assoc]
  rfl

/-- The files whose references are looked at. -/
def ownFiles (w : Workspace) : List FileRecord :=
  w.files.filter fun r => !Uri.isBuiltin r.uri

theorem mem_ownFiles {w : Workspace} {r : FileRecord} :
    r ∈ w.ownFiles ↔ r ∈ w.files ∧ Uri.isBuiltin r.uri = false := by
  rw [ownFiles, List.mem_filter, Bool.not_eq_true']

namespace Indexed

variable {w : Workspace} (h : w.Indexed)
include h

open Classical in
theorem answer_matchSite (name uri : Text) (site : TypeSite) :
    (matchSite (w.index.targets name) name uri site).answer w =
      if w.Counts name uri site then some ⟨uri, site.type.span⟩ else none := by
  rw [matchSite, answer_ite]
  by_cases scalar : site.type.text ∈ scalarTypes
  · rw [if_pos (by simpa using scalar), if_neg fun counts => counts.1 scalar]
    rfl
  rw [if_neg (by simpa using scalar), answer_bind (looks_resolveType _ _ _) fun _ => .pure _,
    answer_pure]
  cases found : (resolveType site.type.text uri (some site.scope)).answer w with
  | some t =>
    have asked := h.fullName_mem_targets (h.hasType_of_resolveType found) name
    have counts : w.Counts name uri site ↔ name = t.fullName ∨ name = t.name := by
      rw [Counts, found]
      exact ⟨And.right, fun same => ⟨scalar, same⟩⟩
    simp only [List.contains_iff_mem, asked, counts]
  | none =>
    have counts : w.Counts name uri site ↔ WrittenLike (absoluteName site.type.text) name := by
      rw [Counts, found]
      exact ⟨And.right, fun like => ⟨scalar, like⟩⟩
    simp only [writtenLike_iff, counts]

open Classical in
/-- **The references that are found are those that count**, in the order of the files. -/
theorem answer_findReferences (typeName : Text) :
    (findReferences typeName).answer w =
      if absoluteName typeName = [] then []
      else w.ownFiles.flatMap fun r =>
        (r.tree.typeSites.filter fun site => w.Counts (absoluteName typeName) r.uri site).map
          fun site => ⟨r.uri, site.type.span⟩ := by
  rw [findReferences, answer_ite]
  by_cases empty : absoluteName typeName = []
  · rw [if_pos (by simpa using empty), if_pos empty]
    rfl
  rw [if_neg (by simpa using empty), if_neg empty, answer_current_bind,
    answer_bind (.mapM fun _ _ => .filterMapM fun _ => looks_matchSite _ _ _ _) fun _ => .pure _,
    answer_mapM fun _ _ => .filterMapM fun _ => looks_matchSite _ _ _ _, answer_pure,
    ← List.flatMap_def]
  refine List.flatMap_congr fun r _ => ?_
  rw [answer_filterMapM fun _ => looks_matchSite _ _ _ _]
  simp only [h.answer_matchSite]
  rw [← List.filterMap_eq_map, List.filterMap_filter]
  refine List.filterMap_congr fun site _ => ?_
  simp

theorem mem_findReferences {typeName : Text} {place : Location} :
    place ∈ (findReferences typeName).answer w ↔ absoluteName typeName ≠ [] ∧
      ∃ r ∈ w.ownFiles, ∃ site ∈ r.tree.typeSites,
        w.Counts (absoluteName typeName) r.uri site ∧ place = ⟨r.uri, site.type.span⟩ := by
  rw [h.answer_findReferences]
  split
  · next empty =>
    exact ⟨fun none => absurd none List.not_mem_nil, fun asked => absurd empty asked.1⟩
  · next asked =>
    simp only [List.mem_flatMap, List.mem_map, List.mem_filter, decide_eq_true_eq, and_assoc,
      ne_eq, asked, not_false_eq_true, true_and, @eq_comm Location place]

variable (parsed : w.Parsed)
include parsed

/-- No loaded symbol has an empty name. -/
theorem names_ne_nil {t : Symbol} (ht : t ∈ w.allSymbols) : t.name ≠ [] ∧ t.fullName ≠ [] := by
  have last := h.name_eq ht
  obtain ⟨r, hr, ht⟩ := List.mem_flatMap.1 ht
  obtain ⟨treeUri, source, tree⟩ := parsed r hr
  rw [r.symbols_eq, tree] at ht
  have simple := SchemaFile.name_ne_nil_of_mem_symbols ht
  refine ⟨simple, fun empty => simple ?_⟩
  rw [last, empty]
  rfl

/-- No location is found twice. -/
theorem nodup_findReferences (typeName : Text) :
    ((findReferences typeName).answer w).Nodup := by
  rw [h.answer_findReferences]
  split
  · exact List.nodup_nil
  refine List.nodup_flatMap.2 ⟨fun r hr => ?_, ?_⟩
  · obtain ⟨treeUri, source, tree⟩ := parsed r (mem_ownFiles.1 hr).1
    have apart : (r.tree.typeSites.map (·.type.span)).Nodup := by
      rw [tree]
      exact SchemaFile.nodup_spans_typeSites treeUri source
    refine List.Nodup.of_map (·.span) ?_
    rw [List.map_map]
    exact apart.sublist (List.filter_sublist.map _)
  · have distinct : (w.ownFiles.map (·.uri)).Nodup :=
      h.distinct.sublist (List.filter_sublist.map _)
    refine (List.pairwise_map.1 distinct).imp fun {a b} different => ?_
    intro place inA inB
    obtain ⟨_, -, rfl⟩ := List.mem_map.1 inA
    obtain ⟨_, -, same⟩ := List.mem_map.1 inB
    exact different (congrArg Location.uri same).symm

/-- **A location is found if and only if the reference at it counts.** -/
theorem site_mem_findReferences {typeName : Text} {r : FileRecord} (hr : r ∈ w.files)
    (own : Uri.isBuiltin r.uri = false) {site : TypeSite} (hsite : site ∈ r.tree.typeSites) :
    ⟨r.uri, site.type.span⟩ ∈ (findReferences typeName).answer w ↔
      absoluteName typeName ≠ [] ∧ w.Counts (absoluteName typeName) r.uri site := by
  rw [h.mem_findReferences]
  refine and_congr_right fun _ => ⟨?_, fun counts =>
    ⟨r, mem_ownFiles.2 ⟨hr, own⟩, site, hsite, counts, rfl⟩⟩
  rintro ⟨r', hr', site', hsite', counts, same⟩
  obtain ⟨uri, span⟩ := Location.mk.inj same
  have file : r = r' := List.inj_on_of_nodup_map h.distinct hr (mem_ownFiles.1 hr').1 uri
  subst file
  obtain ⟨treeUri, source, tree⟩ := parsed r hr
  have apart : (r.tree.typeSites.map (·.type.span)).Nodup := by
    rw [tree]
    exact SchemaFile.nodup_spans_typeSites treeUri source
  rwa [List.inj_on_of_nodup_map apart hsite hsite' span]

end Indexed
end Workspace

/-- **Finding references is exact.**  In every reachable session, for a name without its
leading dots, take any type reference in a loaded file that is no stub.  If its type
resolves to a symbol, its location is found if and only if the name is the full name or the
simple name of the symbol.  If its type resolves to nothing and is not scalar, its location
is found if and only if the name is not empty and the type, without its leading dots, is
the name, or one of the two ends with a dot and the other.  If its type is scalar, it is
not found.  Every location that is found is that of such a reference, and none is found
twice. -/
theorem findReferences_is_exact (s : Session) (h : s.Reachable) (typeName : Text) :
    let name := Workspace.absoluteName typeName
    let found := ((Session.findReferences typeName).run s).1
    (∀ r ∈ s.workspace.files, Uri.isBuiltin r.uri = false → ∀ site ∈ r.tree.typeSites,
      (∀ t, ((Session.resolveType site.type.text r.uri (some site.scope)).run s).1 = some t →
        (⟨r.uri, site.type.span⟩ ∈ found ↔ name = t.fullName ∨ name = t.name)) ∧
      (((Session.resolveType site.type.text r.uri (some site.scope)).run s).1 = none →
        site.type.text ∉ scalarTypes →
        (⟨r.uri, site.type.span⟩ ∈ found ↔ name ≠ [] ∧
          (Workspace.absoluteName site.type.text = name ∨
            (nameDot :: name) <:+ Workspace.absoluteName site.type.text ∨
            (nameDot :: Workspace.absoluteName site.type.text) <:+ name))) ∧
      (site.type.text ∈ scalarTypes → ⟨r.uri, site.type.span⟩ ∉ found)) ∧
    (∀ place ∈ found, ∃ r ∈ s.workspace.files, Uri.isBuiltin r.uri = false ∧
      ∃ site ∈ r.tree.typeSites, place = ⟨r.uri, site.type.span⟩) ∧
    found.Nodup := by
  intro name found
  have indexed := h.indexed
  have answer : found = (Session.findReferences typeName).answer s.workspace :=
    h.answer (.findReferences typeName)
  rw [answer]
  refine ⟨fun r hr own site hsite => ?_, fun place hplace => ?_,
    indexed.nodup_findReferences h.parsed typeName⟩
  · rw [h.answer (.resolveType _ _ _), indexed.site_mem_findReferences h.parsed hr own hsite]
    refine ⟨fun t resolved => ?_, fun unresolved declared => ?_, fun scalar counts =>
      counts.2.1 scalar⟩
    · have declared := (Workspace.declared_of_resolveType resolved).2
      have loaded := indexed.hasType_of_resolveType resolved
      obtain ⟨simple, full⟩ := indexed.names_ne_nil h.parsed loaded.1
      rw [Workspace.Counts, resolved]
      refine ⟨fun counts => counts.2.2, fun same => ⟨?_, declared, same⟩⟩
      rcases same with same | same
      · exact fun empty => full (same.symm.trans empty)
      · exact fun empty => simple (same.symm.trans empty)
    · rw [Workspace.Counts, unresolved]
      exact and_congr_right fun _ => ⟨And.right, fun like => ⟨declared, like⟩⟩
  · obtain ⟨-, r, hr, site, hsite, -, same⟩ := indexed.mem_findReferences.1 hplace
    obtain ⟨hr, own⟩ := Workspace.mem_ownFiles.1 hr
    exact ⟨r, hr, own, site, hsite, same⟩

namespace Referred

/-- A file with a message that refers to itself and to a type that is not declared. -/
def record : FileRecord :=
  .ofText "u" "message M \x7b .M a = 1 ; .X b = 2 ; \x7d"

/-- A session with this file alone. -/
def session : Session := Session.empty.update record

theorem reachable_session : session.Reachable := Session.Reachable.new.update _ _ _ none

theorem typeSites_record : record.tree.typeSites =
    [⟨⟨".M", ⟨⟨0, 12⟩, ⟨0, 14⟩⟩⟩, "M", .field⟩, ⟨⟨".X", ⟨⟨0, 23⟩, ⟨0, 25⟩⟩⟩, "M", .field⟩] := by
  decide +kernel

/-- A name that starts with a dot resolves to a loaded type with the rest as its full
name. -/
theorem preferred_absolute {name : Text} (declared : nameDot :: name ∉ scalarTypes) :
    Preferred [session.workspace.TypeNamed name]
      ((Session.resolveType (nameDot :: name) "u" (some "M")).run session).1 := by
  rw [reachable_session.answer (.resolveType _ _ _), Session.resolveType,
    Query.answer_current_bind, Query.answer_ite, if_neg (by simp [declared]), Query.answer_ite,
    if_pos List.head?_cons]
  exact reachable_session.indexed.preferred_type? name

/-- Asked for `M`, the first reference is found and the second is not; asked for `.X`, the
second is found. -/
theorem resolved_and_unresolved_references : session.Reachable ∧
    ⟨"u", ⟨⟨0, 12⟩, ⟨0, 14⟩⟩⟩ ∈ ((Session.findReferences "M").run session).1 ∧
    ⟨"u", ⟨⟨0, 23⟩, ⟨0, 25⟩⟩⟩ ∉ ((Session.findReferences "M").run session).1 ∧
    ⟨"u", ⟨⟨0, 23⟩, ⟨0, 25⟩⟩⟩ ∈ ((Session.findReferences ".X").run session).1 := by
  have loaded : record ∈ session.workspace.files := List.mem_singleton_self _
  have own : Uri.isBuiltin record.uri = false := by decide +kernel
  have first : ⟨⟨".M", ⟨⟨0, 12⟩, ⟨0, 14⟩⟩⟩, "M", .field⟩ ∈ record.tree.typeSites := by
    rw [typeSites_record]
    exact .head _
  have second : ⟨⟨".X", ⟨⟨0, 23⟩, ⟨0, 25⟩⟩⟩, "M", .field⟩ ∈ record.tree.typeSites := by
    rw [typeSites_record]
    exact .tail _ (.head _)
  have exactM := (findReferences_is_exact session reachable_session "M").1 record loaded own
  have exactX := (findReferences_is_exact session reachable_session ".X").1 record loaded own
  have unresolved : ((Session.resolveType ".X" "u" (some "M")).run session).1 = none := by
    have chosen : Preferred [session.workspace.TypeNamed "X"]
        ((Session.resolveType ".X" "u" (some "M")).run session).1 :=
      preferred_absolute (by decide)
    have absent : ∀ t ∈ session.workspace.allSymbols, t.fullName ≠ ("X" : Text) := by
      decide +kernel
    cases found : ((Session.resolveType ".X" "u" (some "M")).run session).1 with
    | none => rfl
    | some t =>
      obtain ⟨p, hp, has⟩ := (found ▸ chosen).exists_of_some
      rw [List.mem_singleton.1 hp] at has
      exact absurd has.2 (absent t has.1.1)
  refine ⟨reachable_session, ?_, fun found => ?_, ?_⟩
  · have chosen : Preferred [session.workspace.TypeNamed "M"]
        ((Session.resolveType ".M" "u" (some "M")).run session).1 :=
      preferred_absolute (by decide)
    have message : ∃ t ∈ session.workspace.allSymbols, t.isType = true ∧
        t.fullName = ("M" : Text) := by decide +kernel
    cases found : ((Session.resolveType ".M" "u" (some "M")).run session).1 with
    | none =>
      obtain ⟨t, ht, type, same⟩ := message
      exact absurd ⟨⟨ht, type⟩, same⟩
        ((found ▸ chosen).empty_of_none (session.workspace.TypeNamed "M") (by simp) t)
    | some t =>
      obtain ⟨p, hp, has⟩ := (found ▸ chosen).exists_of_some
      rw [List.mem_singleton.1 hp] at has
      exact ((exactM _ first).1 t found).2 (Or.inl has.2.symm)
  · exact absurd (((exactM _ second).2.1 unresolved (by decide)).1 found).2 (by decide)
  · exact ((exactX _ second).2.1 unresolved (by decide)).2 (by decide)

end Referred
end ProtoAtlas
