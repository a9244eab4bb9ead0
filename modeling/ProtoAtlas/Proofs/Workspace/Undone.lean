/-
# Removing a file undoes loading it

A file that comes under a new URI and leaves again leaves the files and the symbols
under every simple name as they were.  While it is loaded it holds the full names it
declares, whoever held them before.

One trace is left.  A name that the file takes over and gives back goes to the earliest of
the symbols that have it, and before it may have been held by another.  Where a full name
has one symbol besides, it comes back to its holder, and if that is so for every name the
file declares, no question can tell that the file was ever there.
-/

import ProtoAtlas.Proofs.Workspace.Commute

namespace ProtoAtlas
namespace Workspace

theorem indexWithout_of_absent {w : Workspace} {uri : Text} (absent : w.file? uri = none) :
    w.indexWithout uri = w.index := by
  rw [indexWithout, absent]

section Undone

variable {w : Workspace} {r : FileRecord} (absent : w.file? r.uri = none)
include absent

theorem files_remove_update : ((w.update r).remove r.uri).files = w.files := by
  have others : w.files.any (·.uri = r.uri) = false := by
    rw [List.any_eq_false]
    exact List.find?_eq_none.1 absent
  exact (filter_putFile w.files r).trans (filter_eq_self_of_any_eq_false others)

/-- The index of a file that came and left. -/
theorem index_remove_update : ((w.update r).remove r.uri).index =
    (w.index.addAll r.symbols).removeAll r.uri r.symbols := by
  have both : (w.update r).indexWithout r.uri = _ :=
    indexWithout_update (rfl : r.uri = r.uri)
  rwa [indexWithout_of_absent absent] at both

/-- A full name that the file does not declare stays where it is. -/
theorem holder?_remove_update_of_undeclared {fullName : Text}
    (other : ∀ t ∈ r.symbols, t.fullName ≠ fullName) :
    ((w.update r).remove r.uri).index.holder? fullName = w.index.holder? fullName := by
  rw [index_remove_update absent]
  exact SymbolIndex.holder?_removeAll_addAll other

variable (h : w.Indexed) (proper : ∀ t ∈ r.symbols, t.Proper r.uri)
include h proper

/-- The symbols under a simple name are those of before, in order. -/
theorem named_remove_update (name : Text) :
    ((w.update r).remove r.uri).index.named name = w.index.named name := by
  have kept : ((w.update r).indexWithout r.uri).named name = _ :=
    named_indexWithout_update (rfl : r.uri = r.uri) h proper name
  rwa [indexWithout_of_absent absent] at kept

/-- A full name that the file declares goes to the earliest symbol that has it. -/
theorem holder?_remove_update_of_declared {fullName : Text}
    (declared : ∃ t ∈ r.symbols, t.fullName = fullName) :
    ((w.update r).remove r.uri).index.holder? fullName =
      w.index.heir? (simpleName fullName) fullName := by
  have foreign : ∀ name, ∀ t ∈ w.index.named name, t.uri ≠ r.uri :=
    indexWithout_of_absent absent ▸ h.foreign_indexWithout r.uri
  rw [index_remove_update absent]
  exact SymbolIndex.holder?_removeAll_addAll_of_declared foreign (fun t ht => (proper t ht).uri)
    (fun t ht its => its ▸ (proper t ht).last.symm) declared

/-- **A full name comes back to its holder** if at most one symbol has it. -/
theorem holder?_remove_update_of_few {fullName : Text}
    (few : (w.allSymbols.filter (·.fullName = fullName)).length ≤ 1) :
    ((w.update r).remove r.uri).index.holder? fullName = w.index.holder? fullName := by
  have after := ((h.update proper).remove r.uri).covers.holders fullName
  rw [allSymbols, files_remove_update absent] at after
  exact after.eq_of_length_le_one (h.covers.holders fullName) few

/-- A file that shares no full name with two other symbols leaves no trace. -/
theorem alike_remove_update
    (few : ∀ t ∈ r.symbols, (w.allSymbols.filter (·.fullName = t.fullName)).length ≤ 1) :
    ((w.update r).remove r.uri).Alike w where
  settings := rfl
  files := files_remove_update absent
  index := ⟨named_remove_update absent h proper, fun fullName => by
    by_cases declared : ∃ t ∈ r.symbols, t.fullName = fullName
    · obtain ⟨t, ht, rfl⟩ := declared
      exact holder?_remove_update_of_few absent h proper (few t ht)
    · exact holder?_remove_update_of_undeclared absent fun t ht its => declared ⟨t, ht, its⟩⟩

end Undone
end Workspace

/-- A file that was just loaded is removed. -/
theorem Session.workspace_remove_update (s : Session) (r : FileRecord) :
    ((s.update r).remove r.uri).workspace = (s.workspace.update r).remove r.uri := by
  have found : ((s.update r).workspace.file? r.uri).isSome = true := by
    rw [show (s.update r).workspace.file? r.uri = some r from
      Workspace.find?_putFile s.workspace.files r]
    rfl
  rw [Session.remove, if_pos found]
  rfl

/-- **Removing a file undoes loading it.**  In every reachable session in which a URI is not
loaded, load a text under it and remove it again.  The settings, the loaded files, their
order and their records are those of before, and so are the symbols under every simple name,
in order, and the full names that are held.  A name that, without the dots it starts with,
the text does not declare has the holder it had; one that it declares is held by the earliest
symbol that has it, which is the holder of before if at most one symbol has it.  And if that
is so for all the text declares, the workspace is as before and no question tells them
apart. -/
theorem removing_undoes_loading (s : Session) (h : s.Reachable)
    (uri treeUri source : Text) (logical : Option Text) (absent : s.workspace.file? uri = none) :
    let r := FileRecord.ofTree uri (SchemaFile.parse treeUri source) logical
    let undone := (s.update r).remove uri
    undone.workspace.settings = s.workspace.settings ∧
    undone.workspace.files = s.workspace.files ∧
    (∀ name : Text, undone.workspace.index.simple[name]? = s.workspace.index.simple[name]?) ∧
    (∀ fullName, undone.workspace.index.holders.contains fullName =
      s.workspace.index.holders.contains fullName) ∧
    (∀ name, (∀ t ∈ r.symbols, t.fullName ≠ Workspace.absoluteName name) →
      undone.workspace.symbol? name = s.workspace.symbol? name) ∧
    (∀ name, (∃ t ∈ r.symbols, t.fullName = Workspace.absoluteName name) →
      undone.workspace.symbol? name =
        (s.workspace.index.named (simpleName (Workspace.absoluteName name))).find?
          (·.fullName = Workspace.absoluteName name)) ∧
    (∀ name, (s.workspace.allSymbols.filter
        (·.fullName = Workspace.absoluteName name)).length ≤ 1 →
      undone.workspace.symbol? name = s.workspace.symbol? name) ∧
    ((∀ t ∈ r.symbols,
        (s.workspace.allSymbols.filter (·.fullName = t.fullName)).length ≤ 1) →
      undone.workspace.Alike s.workspace ∧
        ∀ (α : Type) (q : Query α), Session.Asks q → (q.run undone).1 = (q.run s).1) := by
  intro r undone
  have proper := SchemaFile.proper_of_mem_symbols_parse uri treeUri source
  have indexed := h.indexed
  have reachable : undone.Reachable := (h.update _ _ _ _).remove _
  have its : undone.workspace = (s.workspace.update r).remove r.uri :=
    s.workspace_remove_update r
  have files : undone.workspace.files = s.workspace.files := by
    rw [its]
    exact Workspace.files_remove_update absent
  refine ⟨?_, files, fun name => ?_, fun fullName => ?_, fun name other => ?_,
    fun name declared => ?_, fun name few => ?_, fun few => ?_⟩
  · rw [its]
    rfl
  · have kept : undone.workspace.index.named name = s.workspace.index.named name := by
      rw [its]
      exact Workspace.named_remove_update absent indexed proper name
    rw [reachable.indexed.covers.entries.getElem?_simple,
      indexed.covers.entries.getElem?_simple, kept]
  · exact reachable.indexed.contains_holders indexed files fullName
  · rw [its]
    exact Workspace.holder?_remove_update_of_undeclared absent other
  · rw [its]
    exact Workspace.holder?_remove_update_of_declared absent indexed proper declared
  · rw [its]
    exact Workspace.holder?_remove_update_of_few absent indexed proper few
  · have alike : undone.workspace.Alike s.workspace := by
      rw [its]
      exact Workspace.alike_remove_update absent indexed proper few
    refine ⟨alike, fun α q asks => ?_⟩
    rw [reachable.answer asks, h.answer asks, asks.looks.answer_eq alike]

namespace PassedOn

/-- If one other file has `foo.M`, it holds the name again when a third one that took it over
is removed, and no question tells that the third was there. -/
theorem one_holder_is_back : one.Reachable ∧ one.workspace.file? "u" = none ∧
    (one.workspace.symbol? "foo.M").map (·.uri) = some ("v" : Text) ∧
    ((one.update (plain "u")).remove "u").workspace.symbol? "foo.M" =
      one.workspace.symbol? "foo.M" ∧
    ((one.update (plain "u")).remove "u").workspace.Alike one.workspace := by
  have absent : one.workspace.file? "u" = none := by decide +kernel
  obtain ⟨-, -, -, -, -, -, back, trace⟩ := removing_undoes_loading one reachable_one "u" "u"
    "package foo ; message M \x7b \x7d" none absent
  refine ⟨reachable_one, absent, ?_, back "foo.M" (by decide +kernel),
    (trace (by decide +kernel)).1⟩
  rw [Workspace.symbol?, index_one, SymbolIndex.holder?_addAll, SymbolIndex.holder?_empty]
  decide +kernel

/-- **A name goes to the earliest file**, and not back to its holder.  Of two files that have
`foo.M` the one loaded last holds it.  A third takes the name over and is removed: now the
first of the two holds it. -/
theorem name_goes_to_earliest_file : two.Reachable ∧ two.workspace.file? "u" = none ∧
    (two.workspace.symbol? "foo.M").map (·.uri) = some ("w" : Text) ∧
    (((two.update (plain "u")).remove "u").workspace.symbol? "foo.M").map (·.uri) =
      some ("v" : Text) := by
  have absent : two.workspace.file? "u" = none := by decide +kernel
  have declared : ∃ t ∈ (plain "u").symbols, t.fullName = Workspace.absoluteName "foo.M" := by
    decide +kernel
  have undone : ((two.update (plain "u")).remove "u").workspace.symbol? "foo.M" =
      two.workspace.index.heir? (simpleName (Workspace.absoluteName "foo.M"))
        (Workspace.absoluteName "foo.M") := by
    rw [show ((two.update (plain "u")).remove "u").workspace =
      (two.workspace.update (plain "u")).remove (plain "u").uri from
        two.workspace_remove_update (plain "u")]
    exact Workspace.holder?_remove_update_of_declared absent reachable_two.indexed
      (proper_plain "u") declared
  refine ⟨reachable_two, absent, ?_, ?_⟩
  · rw [Workspace.symbol?, index_two, SymbolIndex.holder?_addAll, SymbolIndex.holder?_addAll,
      SymbolIndex.holder?_empty]
    decide +kernel
  · rw [undone, SymbolIndex.heir?, index_two, SymbolIndex.named_addAll, SymbolIndex.named_addAll,
      SymbolIndex.named_empty]
    decide +kernel

end PassedOn
end ProtoAtlas
