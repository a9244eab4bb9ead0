/-
# The index of a workspace is exact

In every workspace that a session can come to have, the index finds the symbols of
the loaded files and nothing else (`Workspace.Indexed`).  Loading and removing a file
keep this: the symbols with its URI leave the index, and those of its new tree enter.
Changing the settings and asking questions do not touch files or index.

`Session.Reachable` lists all that can happen to a session, and an invariant follows from
what becomes of a workspace (`Session.Reachable.invariant`).
-/

import Mathlib.Data.List.Nodup
import ProtoAtlas.Proofs.Symbol.Covers
import ProtoAtlas.Proofs.Symbol.Declared
import ProtoAtlas.Proofs.Workspace.Question

namespace ProtoAtlas

namespace Workspace

/-- The files have distinct URIs, their symbols are proper, and the index finds
exactly these symbols. -/
structure Indexed (w : Workspace) : Prop where
  distinct : (w.files.map (·.uri)).Nodup
  proper : ∀ r ∈ w.files, ∀ s ∈ r.symbols, s.Proper r.uri
  covers : w.index.Covers w.allSymbols

theorem indexed_empty (settings : Settings) : (empty settings).Indexed where
  distinct := List.nodup_nil
  proper := fun _ hr => nomatch hr
  covers := SymbolIndex.covers_empty

section Files

variable {files : List FileRecord}

/-- The symbols of the files without one URI are the symbols without it. -/
theorem flatMap_symbols_filter (uri : Text)
    (proper : ∀ r ∈ files, ∀ s ∈ r.symbols, s.Proper r.uri) :
    (files.filter (·.uri ≠ uri)).flatMap (·.symbols) =
      (files.flatMap (·.symbols)).filter (·.uri ≠ uri) := by
  induction files with
  | nil => rfl
  | cons r rest ih =>
    have uris : ∀ s ∈ r.symbols, s.uri = r.uri := fun s hs =>
      (proper r List.mem_cons_self s hs).uri
    rw [List.flatMap_cons, List.filter_append,
      ← ih fun r' hr' => proper r' (List.mem_cons_of_mem r hr'), List.filter_cons]
    by_cases same : r.uri = uri
    · have none : r.symbols.filter (·.uri ≠ uri) = [] := by
        rw [List.filter_eq_nil_iff]
        intro s hs
        simp [uris s hs, same]
      rw [none, if_neg (by simp [same]), List.nil_append]
    · have all : r.symbols.filter (·.uri ≠ uri) = r.symbols := by
        rw [List.filter_eq_self]
        intro s hs
        simp [uris s hs, same]
      rw [all, if_pos (by simp [same]), List.flatMap_cons]

theorem filter_eq_self_of_any_eq_false {uri : Text} (h : files.any (·.uri = uri) = false) :
    files.filter (·.uri ≠ uri) = files := by
  rw [List.filter_eq_self]
  intro r hr
  have := List.any_eq_false.1 h r hr
  simpa using this

/-- A file that is put in brings its symbols and drops those of its URI. -/
theorem flatMap_symbols_putFile (distinct : (files.map (·.uri)).Nodup) (r : FileRecord) :
    ((putFile files r).flatMap (·.symbols)).Perm
      ((files.filter (·.uri ≠ r.uri)).flatMap (·.symbols) ++ r.symbols) := by
  unfold putFile
  split
  · next found =>
    induction files with
    | nil => cases found
    | cons old rest ih =>
      rw [List.map_cons, List.nodup_cons] at distinct
      rw [List.map_cons, List.flatMap_cons, List.filter_cons]
      by_cases same : old.uri = r.uri
      · have others : ∀ r' ∈ rest, r'.uri ≠ r.uri := fun r' hr' h =>
          distinct.1 (List.mem_map.2 ⟨r', hr', h.trans same.symm⟩)
        have kept : rest.map (fun old => if old.uri = r.uri then r else old) = rest := by
          rw [List.map_congr_left fun r' hr' => if_neg (others r' hr'), List.map_id']
        have all : rest.filter (·.uri ≠ r.uri) = rest :=
          List.filter_eq_self.2 fun r' hr' => decide_eq_true (others r' hr')
        rw [if_pos same, if_neg (by simp [same]), kept, all]
        exact List.perm_append_comm
      · have later : rest.any (·.uri = r.uri) = true := by simpa [same] using found
        rw [if_neg same, if_pos (by simp [same]), List.flatMap_cons, List.append_assoc]
        exact (ih distinct.2 later).append_left _
  · next absent =>
    rw [filter_eq_self_of_any_eq_false (by simpa using absent), List.flatMap_append,
      List.flatMap_singleton]

theorem nodup_putFile (distinct : (files.map (·.uri)).Nodup) (r : FileRecord) :
    ((putFile files r).map (·.uri)).Nodup := by
  unfold putFile
  split
  · have same : (files.map fun old => if old.uri = r.uri then r else old).map (·.uri) =
        files.map (·.uri) := by
      rw [List.map_map]
      refine List.map_congr_left fun old _ => ?_
      by_cases h : old.uri = r.uri
      · simp [h]
      · simp [h]
    rwa [same]
  · next absent =>
    rw [List.map_append, List.map_singleton]
    refine distinct.append (List.nodup_singleton _) ?_
    rw [List.disjoint_singleton]
    intro mem
    obtain ⟨old, hold, same⟩ := List.mem_map.1 mem
    exact absent (List.any_eq_true.2 ⟨old, hold, decide_eq_true same⟩)

theorem mem_of_mem_putFile {r old : FileRecord} (h : old ∈ putFile files r) :
    old = r ∨ old ∈ files := by
  unfold putFile at h
  split at h
  · obtain ⟨old', hold', rfl⟩ := List.mem_map.1 h
    split
    · exact Or.inl rfl
    · exact Or.inr hold'
  · rcases List.mem_append.1 h with h | h
    · exact Or.inr h
    · exact Or.inl (List.mem_singleton.1 h)

end Files

namespace Indexed

variable {w : Workspace} (h : w.Indexed)
include h

theorem distinguished : Distinguished w.allSymbols := by
  intro s hs t ht same
  obtain ⟨r, hr, hs⟩ := List.mem_flatMap.1 hs
  obtain ⟨r', hr', ht⟩ := List.mem_flatMap.1 ht
  rw [← (h.proper r hr s hs).last, same, (h.proper r' hr' t ht).last]

/-- The index without a file covers the symbols of the other files. -/
theorem covers_indexWithout (uri : Text) :
    (w.indexWithout uri).Covers ((w.files.filter (·.uri ≠ uri)).flatMap (·.symbols)) := by
  unfold indexWithout
  cases found : w.file? uri with
  | none =>
    have absent : w.files.any (·.uri = uri) = false := by
      rw [List.any_eq_false]
      exact List.find?_eq_none.1 found
    rw [filter_eq_self_of_any_eq_false absent]
    exact h.covers
  | some r =>
    have hr := List.mem_of_find?_eq_some found
    have its : r.uri = uri := by simpa using List.find?_some found
    rw [flatMap_symbols_filter uri h.proper]
    refine SymbolIndex.Covers.removeAll uri h.distinguished h.covers fun s => ?_
    constructor
    · intro hs
      exact ⟨List.mem_flatMap.2 ⟨r, hr, hs⟩, its ▸ (h.proper r hr s hs).uri⟩
    · rintro ⟨hs, same⟩
      obtain ⟨r', hr', hs⟩ := List.mem_flatMap.1 hs
      have one : r' = r := List.inj_on_of_nodup_map h.distinct hr' hr
        (((h.proper r' hr' s hs).uri.symm.trans same).trans its.symm)
      exact one ▸ hs

/-- **Removing a file keeps the index exact.** -/
theorem remove (uri : Text) : (w.remove uri).Indexed where
  distinct := h.distinct.sublist (List.filter_sublist.map _)
  proper := fun r hr => h.proper r (List.mem_filter.1 hr).1
  covers := h.covers_indexWithout uri

/-- **Loading a file keeps the index exact**, in the place of an earlier one or not. -/
theorem update {r : FileRecord} (proper : ∀ s ∈ r.symbols, s.Proper r.uri) :
    (w.update r).Indexed where
  distinct := nodup_putFile h.distinct r
  proper := fun old hold => by
    rcases mem_of_mem_putFile hold with rfl | hold
    · exact proper
    · exact h.proper old hold
  covers := ((h.covers_indexWithout r.uri).addAll r.symbols).perm
    (flatMap_symbols_putFile h.distinct r).symm

end Indexed
end Workspace

/-! ### Reachable sessions -/

/-- The record of a text that is read and loaded under a URI, without a logical path. -/
def FileRecord.ofText (uri source : Text) : FileRecord :=
  ofTree uri (SchemaFile.parse uri source) none

namespace Session

open Query

/-- The sessions that come about: a new one, with the stubs or without, and then texts
read and loaded under a URI, files removed, settings changed, and questions asked, in
any order. -/
inductive Reachable : Session → Prop
  | new : Reachable empty
  | newWithStubs : Reachable withStubs
  | update {s : Session} (h : Reachable s) (uri treeUri source : Text)
      (logicalPath : Option Text) :
      Reachable (s.update (FileRecord.ofTree uri (SchemaFile.parse treeUri source) logicalPath))
  | remove {s : Session} (h : Reachable s) (uri : Text) : Reachable (s.remove uri)
  | configure {s : Session} (h : Reachable s) (change : Settings.Change) :
      Reachable (s.configure change)
  | ask {s : Session} (h : Reachable s) {α : Type} {q : Query α} (asks : Asks q) :
      Reachable (q.run s).2

/-- **What holds of a workspace without files, and still holds when a text is loaded, a file
is removed or a setting is changed, holds of every reachable session.** -/
theorem Reachable.invariant (P : Workspace → Prop)
    (empty : P (Workspace.empty Settings.empty))
    (update : ∀ w uri treeUri source logicalPath, P w →
      P (w.update (FileRecord.ofTree uri (SchemaFile.parse treeUri source) logicalPath)))
    (remove : ∀ w uri, P w → P (w.remove uri))
    (configure : ∀ (w : Workspace) change, P w → P { w with settings := w.settings.set change })
    {s : Session} (h : s.Reachable) : P s.workspace := by
  have loaded : ∀ (stubs : List Stub) (s : Session), P s.workspace →
      P (stubs.foldl (fun s stub => s.update (stubRecord stub)) s).workspace := by
    intro stubs
    induction stubs with
    | nil => exact fun s h => h
    | cons stub rest ih => exact fun s h => ih _ (update _ _ _ _ _ h)
  induction h with
  | new => exact empty
  | newWithStubs => exact loaded _ _ empty
  | update _ uri treeUri source logicalPath ih => exact update _ uri treeUri source logicalPath ih
  | @remove s _ uri ih =>
    unfold Session.remove
    split
    · exact remove _ uri ih
    · exact ih
  | configure _ change ih => exact configure _ change ih
  | @ask s _ α q asks ih =>
    rw [asks.looks.keeps s]
    exact ih

/-- **In every reachable session the index is exact.** -/
theorem Reachable.indexed {s : Session} (h : s.Reachable) : s.workspace.Indexed :=
  h.invariant Workspace.Indexed (Workspace.indexed_empty _)
    (fun _ uri treeUri source _ indexed =>
      indexed.update (SchemaFile.proper_of_mem_symbols_parse uri treeUri source))
    (fun _ uri indexed => indexed.remove uri)
    (fun _ _ indexed => ⟨indexed.distinct, indexed.proper, indexed.covers⟩)

end Session

/-- A file that was read from a text. -/
def SchemaFile.Parsed (f : SchemaFile) : Prop := ∃ uri source, f = parse uri source

/-- Every loaded tree was read from a text. -/
def Workspace.Parsed (w : Workspace) : Prop := ∀ r ∈ w.files, r.tree.Parsed

/-- **In every reachable session all trees were read from texts.** -/
theorem Session.Reachable.parsed {s : Session} (h : s.Reachable) : s.workspace.Parsed := by
  refine h.invariant Workspace.Parsed (fun r hr => ?_)
    (fun w uri treeUri source _ parsed r hr => ?_)
    (fun w uri parsed r hr => parsed r (List.mem_filter.1 hr).1) fun w change parsed => parsed
  · cases hr
  · rcases Workspace.mem_of_mem_putFile hr with rfl | hr
    · exact ⟨treeUri, source, rfl⟩
    · exact parsed r hr

/-- **The symbol index is exact.**  In every reachable session the loaded files have
distinct URIs.  Under a simple name the index has every symbol with that name as often
as the loaded files declare it, and nothing else; no simple name has an empty entry.  A
full name is in the index if and only if a loaded file declares it, and what holds it is
a symbol of a loaded file with that full name. -/
theorem reachable_index_is_exact (s : Session) (h : s.Reachable) :
    (s.workspace.files.map (·.uri)).Nodup ∧
    (∀ name, (s.workspace.index.named name).Perm
      (s.workspace.allSymbols.filter (·.name = name))) ∧
    (∀ (name : Text) (entry : List Symbol),
      s.workspace.index.simple[name]? = some entry → entry ≠ []) ∧
    (∀ fullName, s.workspace.index.holders.contains fullName = true ↔
      ∃ r ∈ s.workspace.files, ∃ t ∈ r.symbols, t.fullName = fullName) ∧
    ∀ (fullName : Text) (t : Symbol), s.workspace.index.holders[fullName]? = some t →
      t.fullName = fullName ∧ ∃ r ∈ s.workspace.files, t ∈ r.symbols := by
  obtain ⟨distinct, -, covers⟩ := h.indexed
  refine ⟨distinct, covers.named, covers.entries, fun fullName => ?_, fun fullName t found => ?_⟩
  · have held := covers.holders fullName
    rw [← Std.HashMap.isSome_getElem?_eq_contains]
    change (s.workspace.index.holder? fullName).isSome = true ↔ _
    cases found : s.workspace.index.holder? fullName with
    | none =>
      rw [found] at held
      constructor
      · intro none
        cases none
      · rintro ⟨r, hr, t, ht, same⟩
        exact absurd same (held t (List.mem_flatMap.2 ⟨r, hr, ht⟩))
    | some t =>
      rw [found] at held
      obtain ⟨r, hr, ht⟩ := List.mem_flatMap.1 held.1
      exact ⟨fun _ => ⟨r, hr, t, ht, held.2⟩, fun _ => rfl⟩
  · have held := covers.holders fullName
    rw [show s.workspace.index.holder? fullName = some t from found] at held
    exact ⟨held.2, List.mem_flatMap.1 held.1⟩

/-- A session in which two files declare one full name, and the one loaded last, which
holds it, is removed again. -/
def sharedName : Session :=
  ((Session.empty.update (.ofText "a" "package p ; message M \x7b \x7d")).update
    (.ofText "b" "package p ; enum M \x7b M = 0 ; \x7d")).remove "b"

/-- The file that is left takes the full name over. -/
theorem sharedName_is_held :
    sharedName.Reachable ∧ sharedName.workspace.index.holders.contains ("p.M" : Text) = true := by
  have reachable : sharedName.Reachable :=
    ((Session.Reachable.new.update _ _ _ _).update _ _ _ _).remove _
  exact ⟨reachable, ((reachable_index_is_exact sharedName reachable).2.2.2.1 "p.M").2
    (by decide +kernel)⟩

end ProtoAtlas
