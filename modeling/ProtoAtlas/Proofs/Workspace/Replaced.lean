/-
# An update replaces the earlier contribution of a file

Loading a file under a URI that is loaded takes the earlier symbols out of the index and
puts the new ones in.  So of two updates in a row under one URI only the second can be
seen: the files, the symbols under every simple name and the full names that are held
are those of the second update alone.

One trace is left.  A full name that the first tree declares and the second does not is
passed on when the first leaves, to the earliest symbol of the other files that has it;
without the first update the one loaded last still holds it.  So who holds a full name
may differ where the first tree declares it, the second does not, and two symbols of
other files share it.  If the trees are equal there is no such name, and no question can
tell one update from two.
-/

import ProtoAtlas.Proofs.Workspace.Answer

namespace ProtoAtlas
namespace SymbolIndex

/-! ### Adding symbols and removing them again -/

/-- The symbol added last under a full name holds it. -/
theorem holder?_addAll (ix : SymbolIndex) (new : List Symbol) (fullName : Text) :
    (ix.addAll new).holder? fullName =
      (new.filter (·.fullName = fullName)).getLast?.or (ix.holder? fullName) := by
  induction new generalizing ix with
  | nil => rfl
  | cons s rest ih =>
    have step : ix.addAll (s :: rest) = (ix.add s).addAll rest := rfl
    rw [step, ih, holder?_add, List.filter_cons]
    by_cases same : s.fullName = fullName
    · rw [if_pos same, if_pos (decide_eq_true same), List.getLast?_cons, Option.some_or]
      cases (rest.filter (·.fullName = fullName)).getLast? with
      | none => rfl
      | some t => rfl
    · rw [if_neg same, if_neg (by simpa using same)]

/-- What is held after symbols are added does not depend on the index if one of them
has the full name. -/
theorem holder?_addAll_of_declared {new : List Symbol} {fullName : Text}
    (declared : ∃ s ∈ new, s.fullName = fullName) (ix jx : SymbolIndex) :
    (ix.addAll new).holder? fullName = (jx.addAll new).holder? fullName := by
  obtain ⟨s, hs, same⟩ := declared
  have listed : s ∈ new.filter (·.fullName = fullName) :=
    List.mem_filter.2 ⟨hs, decide_eq_true same⟩
  rw [holder?_addAll, holder?_addAll, List.getLast?_eq_some_getLast (List.ne_nil_of_mem listed),
    Option.some_or, Option.some_or]

/-- Two symbols that may hold a full name are one if at most one symbol has it. -/
theorem HeldIn.eq_of_length_le_one {symbols : List Symbol} {fullName : Text} {o o' : Option Symbol}
    (h : HeldIn symbols fullName o) (h' : HeldIn symbols fullName o')
    (few : (symbols.filter (·.fullName = fullName)).length ≤ 1) : o = o' := by
  have listed : ∀ {t : Symbol}, t ∈ symbols ∧ t.fullName = fullName →
      t ∈ symbols.filter (·.fullName = fullName) := fun h =>
    List.mem_filter.2 ⟨h.1, decide_eq_true h.2⟩
  cases o with
  | none =>
    cases o' with
    | none => rfl
    | some t => exact absurd h'.2 (h t h'.1)
  | some t =>
    cases o' with
    | none => exact absurd h.2 (h' t h.1)
    | some u =>
      -- Both stand in a list of length at most one.
      obtain ⟨i, hi, rfl⟩ := List.mem_iff_getElem.1 (listed h)
      obtain ⟨j, hj, rfl⟩ := List.mem_iff_getElem.1 (listed h')
      have same : i = j := by omega
      subst same
      rfl

/-- The entry of a simple name is its symbols, if it has any. -/
theorem NoEmptyEntry.getElem?_simple {ix : SymbolIndex} (h : ix.NoEmptyEntry) (name : Text) :
    ix.simple[name]? = if ix.named name = [] then none else some (ix.named name) := by
  rw [named, Std.HashMap.getD_eq_getD_getElem?]
  cases found : ix.simple[name]? with
  | none => rfl
  | some entry => rw [Option.getD_some, if_neg (h name entry found)]

section AddRemove

variable {uri : Text} {ix : SymbolIndex} {new : List Symbol}

/-- Symbols of a file that enter and leave again leave no trace under simple names. -/
theorem named_removeAll_addAll (foreign : ∀ name, ∀ s ∈ ix.named name, s.uri ≠ uri)
    (own : ∀ s ∈ new, s.uri = uri) (name : Text) :
    ((ix.addAll new).removeAll uri new).named name = ix.named name := by
  have kept : (ix.named name).filter (·.uri ≠ uri) = ix.named name :=
    List.filter_eq_self.2 fun s hs => decide_eq_true (foreign name s hs)
  have dropped : (new.filter (·.name = name)).filter (·.uri ≠ uri) = [] := by
    rw [List.filter_eq_nil_iff]
    intro s hs
    simp [own s (List.mem_filter.1 hs).1]
  rw [removeAll, named_foldl_passOn, named_foldl_dropSimple, named_addAll]
  split
  · rw [List.filter_append, kept, dropped, List.append_nil]
  · next absent =>
    have none : new.filter (·.name = name) = [] := by
      rw [List.filter_eq_nil_iff]
      intro s hs same
      exact absent ⟨s, hs, of_decide_eq_true same⟩
    rw [none, List.append_nil]

/-- Nor do they under a full name that none of them has. -/
theorem holder?_removeAll_addAll {fullName : Text} (other : ∀ s ∈ new, s.fullName ≠ fullName) :
    ((ix.addAll new).removeAll uri new).holder? fullName = ix.holder? fullName := by
  have none : new.filter (·.fullName = fullName) = [] := by
    rw [List.filter_eq_nil_iff]
    intro s hs same
    exact other s hs (of_decide_eq_true same)
  rw [removeAll, holder?_foldl_passOn uri other, holder?_foldl_dropSimple, holder?_addAll, none]
  rfl

/-- A full name that no symbol of the file holds stays where it is. -/
theorem holder?_foldl_passOn_of_foreign {passed : List Symbol} {fullName : Text}
    (foreign : ∀ t, ix.holder? fullName = some t → t.uri ≠ uri) :
    (passed.foldl (passOn uri) ix).holder? fullName = ix.holder? fullName := by
  induction passed generalizing ix with
  | nil => rfl
  | cons s rest ih =>
    have step : (passOn uri ix s).holder? fullName = ix.holder? fullName := by
      rw [holder?_passOn]
      split
      · cases found : ix.holder? fullName with
        | none => rfl
        | some held => exact if_neg (foreign held found)
      · rfl
    rw [List.foldl_cons, ih (by rwa [step]), step]

/-- A full name that a symbol of the file holds goes to the heir, and stays there. -/
theorem holder?_foldl_passOn_of_own {passed : List Symbol} {name fullName : Text} {held : Symbol}
    (found : ix.holder? fullName = some held) (its : held.uri = uri)
    (foreign : ∀ t ∈ ix.named name, t.uri ≠ uri)
    (names : ∀ s ∈ passed, s.fullName = fullName → s.name = name)
    (among : ∃ s ∈ passed, s.fullName = fullName) :
    (passed.foldl (passOn uri) ix).holder? fullName = ix.heir? name fullName := by
  induction passed generalizing ix with
  | nil =>
    obtain ⟨s, hs, -⟩ := among
    cases hs
  | cons s rest ih =>
    rw [List.foldl_cons]
    by_cases same : s.fullName = fullName
    · have passed : (passOn uri ix s).holder? fullName = ix.heir? name fullName := by
        rw [holder?_passOn, if_pos same, found, names s List.mem_cons_self same]
        exact if_pos its
      rw [holder?_foldl_passOn_of_foreign, passed]
      intro t heir
      rw [passed] at heir
      exact foreign t (List.mem_of_find?_eq_some heir)
    · have kept : (passOn uri ix s).holder? fullName = some held := by
        rw [holder?_passOn, if_neg same, found]
      obtain ⟨t, ht, its⟩ := among
      exact ih kept foreign (fun t ht => names t (List.mem_cons_of_mem s ht))
        ⟨t, (List.mem_cons.1 ht).resolve_left fun h => same (h ▸ its), its⟩

/-- **The trace of a file that came and left**: a full name it declared is held by the
earliest of the other symbols with that name. -/
theorem holder?_removeAll_addAll_of_declared
    (foreign : ∀ name, ∀ s ∈ ix.named name, s.uri ≠ uri) (own : ∀ s ∈ new, s.uri = uri)
    {name fullName : Text} (names : ∀ s ∈ new, s.fullName = fullName → s.name = name)
    (declared : ∃ s ∈ new, s.fullName = fullName) :
    ((ix.addAll new).removeAll uri new).holder? fullName = ix.heir? name fullName := by
  have unchanged : ∀ name, (new.foldl (dropSimple uri) (ix.addAll new)).named name =
      ix.named name := fun name => by
    rw [← named_removeAll_addAll foreign own name, removeAll, named_foldl_passOn]
  obtain ⟨held, last⟩ : ∃ held, (new.filter (·.fullName = fullName)).getLast? = some held := by
    obtain ⟨s, hs, same⟩ := declared
    exact ⟨_, List.getLast?_eq_some_getLast (List.ne_nil_of_mem
      (List.mem_filter.2 ⟨hs, decide_eq_true same⟩))⟩
  have found : (new.foldl (dropSimple uri) (ix.addAll new)).holder? fullName = some held := by
    rw [holder?_foldl_dropSimple, holder?_addAll, last, Option.some_or]
  have its := own held (List.mem_filter.1 (List.mem_of_getLast? last)).1
  rw [removeAll, holder?_foldl_passOn_of_own found its (fun t ht => ?_) names declared, heir?,
    heir?, unchanged]
  rw [unchanged] at ht
  exact foreign name t ht

end AddRemove
end SymbolIndex

namespace Workspace

/-! ### The files -/

section Files

variable (files : List FileRecord)

/-- The file that was put in is found. -/
theorem find?_putFile (r : FileRecord) : (putFile files r).find? (·.uri = r.uri) = some r := by
  unfold putFile
  split
  · next found =>
    induction files with
    | nil => cases found
    | cons old rest ih =>
      rw [List.map_cons]
      by_cases same : old.uri = r.uri
      · rw [if_pos same, List.find?_cons_of_pos (by simp)]
      · have later : rest.any (·.uri = r.uri) = true := by simpa [same] using found
        rw [if_neg same, List.find?_cons_of_neg (by simpa using same), ih later]
  · next absent =>
    have none : files.find? (·.uri = r.uri) = none := by
      rw [List.find?_eq_none]
      exact fun old hold same => absent (List.any_eq_true.2 ⟨old, hold, same⟩)
    rw [List.find?_append, none, Option.none_or, List.find?_cons_of_pos (by simp)]

/-- Putting a file in does not touch those with other URIs. -/
theorem filter_putFile (r : FileRecord) :
    (putFile files r).filter (·.uri ≠ r.uri) = files.filter (·.uri ≠ r.uri) := by
  unfold putFile
  split
  · rw [List.filter_map]
    have kept : ((fun old : FileRecord => decide (old.uri ≠ r.uri)) ∘ fun old =>
        if old.uri = r.uri then r else old) = fun old => decide (old.uri ≠ r.uri) := by
      funext old
      by_cases same : old.uri = r.uri
      · simp [same]
      · simp [same]
    rw [kept]
    conv_rhs => rw [← List.map_id (files.filter _)]
    refine List.map_congr_left fun old hold => ?_
    exact if_neg (of_decide_eq_true (List.mem_filter.1 hold).2)
  · rw [List.filter_append, List.filter_singleton]
    simp

/-- Of two files put in under one URI, in a row, the second stays. -/
theorem putFile_putFile {r r' : FileRecord} (same : r.uri = r'.uri) :
    putFile (putFile files r) r' = putFile files r' := by
  have there : (putFile files r).any (·.uri = r'.uri) = true := by
    rw [List.any_eq_true]
    exact ⟨r, List.mem_of_find?_eq_some (find?_putFile files r), decide_eq_true same⟩
  rw [putFile, if_pos there]
  unfold putFile
  rw [same]
  split
  · rw [List.map_map]
    refine List.map_congr_left fun old _ => ?_
    by_cases its : old.uri = r'.uri
    · simp [its, same]
    · simp [its]
  · next absent =>
    have others : files.map (fun old => if old.uri = r'.uri then r' else old) = files := by
      conv_rhs => rw [← List.map_id files]
      refine List.map_congr_left fun old hold => if_neg fun its => ?_
      exact absent (List.any_eq_true.2 ⟨old, hold, decide_eq_true its⟩)
    rw [List.map_append, others, List.map_singleton, if_pos same]

end Files

/-- The index without a file has no symbol of it. -/
theorem Indexed.foreign_indexWithout {w : Workspace} (h : w.Indexed) (uri name : Text) :
    ∀ s ∈ (w.indexWithout uri).named name, s.uri ≠ uri := by
  intro s hs
  rw [((h.covers_indexWithout uri).named name).mem_iff, flatMap_symbols_filter _ h.proper] at hs
  exact of_decide_eq_true (List.mem_filter.1 (List.mem_filter.1 hs).1).2

/-- A file under a new URI only adds its symbols. -/
theorem index_update_of_absent {w : Workspace} {r : FileRecord} (absent : w.file? r.uri = none) :
    (w.update r).index = w.index.addAll r.symbols := by
  rw [update, indexWithout, absent]

/-- The symbols of the files that have another URI. -/
def symbolsOutside (w : Workspace) (uri : Text) : List Symbol :=
  (w.files.filter (·.uri ≠ uri)).flatMap (·.symbols)

/-! ### Two updates in a row -/

section Twice

variable {w : Workspace} {first second : FileRecord} (same : first.uri = second.uri)
include same

theorem files_update_update : ((w.update first).update second).files = (w.update second).files :=
  putFile_putFile w.files same

/-- The second update begins by taking the symbols of the first out again. -/
theorem indexWithout_update : (w.update first).indexWithout second.uri =
    ((w.indexWithout second.uri).addAll first.symbols).removeAll second.uri first.symbols := by
  have found : (w.update first).file? second.uri = some first := by
    rw [file?, ← same]
    exact find?_putFile w.files first
  rw [indexWithout, found, ← same]
  rfl

variable (h : w.Indexed) (proper : ∀ s ∈ first.symbols, s.Proper first.uri)
include h proper

theorem named_indexWithout_update (name : Text) :
    ((w.update first).indexWithout second.uri).named name =
      (w.indexWithout second.uri).named name := by
  rw [indexWithout_update same]
  exact SymbolIndex.named_removeAll_addAll (h.foreign_indexWithout _)
    (fun s hs => same ▸ (proper s hs).uri) name

/-- After either, the index covers the symbols of the other files. -/
theorem covers_indexWithout_update : ((w.update first).indexWithout second.uri).Covers
    (w.symbolsOutside second.uri) := by
  have covers := (h.update proper).covers_indexWithout second.uri
  rwa [show (w.update first).files.filter (·.uri ≠ second.uri) =
    w.files.filter (·.uri ≠ second.uri) from same ▸ filter_putFile w.files first] at covers

theorem named_update_update (name : Text) :
    ((w.update first).update second).index.named name = (w.update second).index.named name := by
  change (((w.update first).indexWithout second.uri).addAll second.symbols).named name =
    ((w.indexWithout second.uri).addAll second.symbols).named name
  rw [SymbolIndex.named_addAll, SymbolIndex.named_addAll, named_indexWithout_update same h proper]

/-- **Who holds a full name** after two updates holds it after the second alone, if the
second tree declares it, or the first does not, or at most one symbol of the other files
has it. -/
theorem holder?_update_update {fullName : Text}
    (settled : (∃ t ∈ second.symbols, t.fullName = fullName) ∨
      (∀ t ∈ first.symbols, t.fullName ≠ fullName) ∨
      ((w.symbolsOutside second.uri).filter (·.fullName = fullName)).length ≤ 1) :
    ((w.update first).update second).index.holder? fullName =
      (w.update second).index.holder? fullName := by
  change (((w.update first).indexWithout second.uri).addAll second.symbols).holder? fullName =
    ((w.indexWithout second.uri).addAll second.symbols).holder? fullName
  rcases settled with declared | other | few
  · exact SymbolIndex.holder?_addAll_of_declared declared _ _
  · rw [SymbolIndex.holder?_addAll, SymbolIndex.holder?_addAll, indexWithout_update same,
      SymbolIndex.holder?_removeAll_addAll other]
  · have held := (covers_indexWithout_update same h proper).holders fullName
    have held' := (h.covers_indexWithout second.uri).holders fullName
    rw [SymbolIndex.holder?_addAll, SymbolIndex.holder?_addAll,
      held.eq_of_length_le_one held' few]

/-- **Where the first update shows**: a full name that the first tree declares and the
second does not is held by the earliest symbol of the other files that has it. -/
theorem holder?_update_update_of_dropped {fullName : Text}
    (declared : ∃ t ∈ first.symbols, t.fullName = fullName)
    (dropped : second.symbols.filter (·.fullName = fullName) = []) :
    ((w.update first).update second).index.holder? fullName =
      (w.indexWithout second.uri).heir? (simpleName fullName) fullName := by
  change (((w.update first).indexWithout second.uri).addAll second.symbols).holder? fullName = _
  rw [SymbolIndex.holder?_addAll, dropped, List.getLast?_nil, Option.none_or,
    indexWithout_update same]
  exact SymbolIndex.holder?_removeAll_addAll_of_declared (h.foreign_indexWithout _)
    (fun s hs => same ▸ (proper s hs).uri) (fun s hs its => its ▸ (proper s hs).last.symm) declared

/-- Two updates with one tree are like one. -/
theorem alike_update_update (trees : first.tree = second.tree) :
    ((w.update first).update second).Alike (w.update second) where
  settings := rfl
  files := files_update_update same
  index := ⟨named_update_update same h proper, fun fullName => by
    have symbols : first.symbols = second.symbols := by
      rw [first.symbols_eq, second.symbols_eq, trees, same]
    refine holder?_update_update same h proper ?_
    rw [symbols]
    by_cases declared : ∃ t ∈ second.symbols, t.fullName = fullName
    · exact Or.inl declared
    · exact Or.inr (Or.inl fun t ht its => declared ⟨t, ht, its⟩)⟩

end Twice

/-- Workspaces whose indexes are exact, with the same files, hold the same full names. -/
theorem Indexed.contains_holders {v w : Workspace} (hv : v.Indexed) (hw : w.Indexed)
    (files : v.files = w.files) (fullName : Text) :
    v.index.holders.contains fullName = w.index.holders.contains fullName := by
  have held : ∀ {u : Workspace}, u.Indexed →
      (u.index.holders.contains fullName = true ↔ ∃ t ∈ u.allSymbols, t.fullName = fullName) := by
    intro u hu
    have holder := hu.covers.holders fullName
    rw [← Std.HashMap.isSome_getElem?_eq_contains]
    change (u.index.holder? fullName).isSome = true ↔ _
    cases found : u.index.holder? fullName with
    | none =>
      rw [found] at holder
      constructor
      · intro held
        cases held
      · rintro ⟨t, ht, same⟩
        exact absurd same (holder t ht)
    | some t =>
      rw [found] at holder
      exact ⟨fun _ => ⟨t, holder⟩, fun _ => rfl⟩
  rw [Bool.eq_iff_iff, held hv, held hw, allSymbols, allSymbols, files]

end Workspace

/-- **A later update replaces an earlier one.**  In every reachable session, load two
texts one after the other under one URI, or only the second.  The settings, the loaded
files, their order and their records are the same, and so are the symbols under every
simple name, in order, and the full names that are held.  A name has the same holder if,
without the dots it starts with, the second tree declares it, or the first does not, or
at most one symbol of the other files has it.  And if the trees are equal, the workspaces
are alike and no question tells them apart. -/
theorem later_update_replaces_earlier (s : Session) (h : s.Reachable)
    (uri treeUri₁ source₁ treeUri₂ source₂ : Text) (logical₁ logical₂ : Option Text) :
    let first := FileRecord.ofTree uri (SchemaFile.parse treeUri₁ source₁) logical₁
    let second := FileRecord.ofTree uri (SchemaFile.parse treeUri₂ source₂) logical₂
    let twice := (s.update first).update second
    let once := s.update second
    twice.workspace.settings = once.workspace.settings ∧
    twice.workspace.files = once.workspace.files ∧
    (∀ name : Text, twice.workspace.index.simple[name]? = once.workspace.index.simple[name]?) ∧
    (∀ fullName, twice.workspace.index.holders.contains fullName =
      once.workspace.index.holders.contains fullName) ∧
    (∀ name,
      (∃ t ∈ second.symbols, t.fullName = Workspace.absoluteName name) ∨
      (∀ t ∈ first.symbols, t.fullName ≠ Workspace.absoluteName name) ∨
      ((s.workspace.symbolsOutside uri).filter
        (·.fullName = Workspace.absoluteName name)).length ≤ 1 →
      twice.workspace.symbol? name = once.workspace.symbol? name) ∧
    (first.tree = second.tree → twice.workspace.Alike once.workspace ∧
      ∀ (α : Type) (q : Query α), Session.Asks q → (q.run twice).1 = (q.run once).1) := by
  intro first second twice once
  have proper := SchemaFile.proper_of_mem_symbols_parse uri treeUri₁ source₁
  have indexed := h.indexed
  have reachTwice : twice.Reachable := (h.update _ _ _ _).update _ _ _ _
  have reachOnce : once.Reachable := h.update _ _ _ _
  have same : first.uri = second.uri := rfl
  have files : twice.workspace.files = once.workspace.files := Workspace.files_update_update same
  refine ⟨rfl, files, fun name => ?_, fun fullName => ?_, fun name settled => ?_, fun trees => ?_⟩
  · rw [reachTwice.indexed.covers.entries.getElem?_simple,
      reachOnce.indexed.covers.entries.getElem?_simple,
      show twice.workspace.index.named name = once.workspace.index.named name from
        Workspace.named_update_update same indexed proper name]
  · exact reachTwice.indexed.contains_holders reachOnce.indexed files fullName
  · exact Workspace.holder?_update_update same indexed proper
      settled
  · have alike : twice.workspace.Alike once.workspace :=
      Workspace.alike_update_update same indexed proper trees
    refine ⟨alike, fun α q asks => ?_⟩
    rw [reachTwice.answer asks, reachOnce.answer asks, asks.looks.answer_eq alike]

namespace PassedOn

/-- A file that declares the full name `foo.M`. -/
def plain (uri : Text) : FileRecord :=
  .ofText uri "package foo ; message M \x7b \x7d"

theorem uri_plain (uri : Text) : (plain uri).uri = uri := rfl

theorem proper_plain (uri : Text) : ∀ t ∈ (plain uri).symbols, t.Proper uri :=
  SchemaFile.proper_of_mem_symbols_parse uri uri _

/-- A file whose package is written with a leading dot, which stays in the full names. -/
def dotted (uri : Text) : FileRecord :=
  .ofText uri "package .foo ; message M \x7b \x7d"

theorem uri_dotted (uri : Text) : (dotted uri).uri = uri := rfl

/-- A workspace with one file that declares `foo.M`. -/
def one : Session := Session.empty.update (plain "v")

/-- A workspace with two. -/
def two : Session := one.update (plain "w")

theorem reachable_one : one.Reachable := Session.Reachable.new.update _ _ _ none

theorem reachable_two : two.Reachable := reachable_one.update _ _ _ none

theorem index_one : one.workspace.index = SymbolIndex.empty.addAll (plain "v").symbols :=
  Workspace.index_update_of_absent (by decide)

theorem index_two : two.workspace.index =
    (SymbolIndex.empty.addAll (plain "v").symbols).addAll (plain "w").symbols := by
  rw [← index_one]
  exact Workspace.index_update_of_absent (by decide +kernel)

/-- If one other file has `foo.M`, it takes the name back when the first text leaves. -/
theorem one_heir_is_restored : one.Reachable ∧
    (((one.update (plain "u")).update (dotted "u")).workspace.symbol? "foo.M").map (·.uri) =
      some ("v" : Text) := by
  obtain ⟨-, -, -, -, held, -⟩ := later_update_replaces_earlier one reachable_one "u" "u"
    "package foo ; message M \x7b \x7d" "u" "package .foo ; message M \x7b \x7d" none none
  have same : ((one.update (plain "u")).update (dotted "u")).workspace.symbol? "foo.M" =
      (one.update (dotted "u")).workspace.symbol? "foo.M" :=
    held "foo.M" (Or.inr (Or.inr (by decide +kernel)))
  have once : (one.update (dotted "u")).workspace.index =
      (SymbolIndex.empty.addAll (plain "v").symbols).addAll (dotted "u").symbols := by
    rw [← index_one]
    exact Workspace.index_update_of_absent (by decide +kernel)
  refine ⟨reachable_one, ?_⟩
  rw [same, Workspace.symbol?, once, SymbolIndex.holder?_addAll, SymbolIndex.holder?_addAll,
    SymbolIndex.holder?_empty]
  decide +kernel

/-- A name that is asked for counts without its dots, and a name that is declared counts
with them.  The second text declares `.foo.M`, but to ask for that is to ask for `foo.M`,
which two other files have: after both updates the first of them holds it, after the
second update alone the last. -/
theorem dotted_name_shows_replaced_update : two.Reachable ∧
    (".foo.M" : Text) ∈ (dotted "u").symbols.map (·.fullName) ∧
    (((two.update (plain "u")).update (dotted "u")).workspace.symbol? ".foo.M").map (·.uri) =
      some ("v" : Text) ∧
    ((two.update (dotted "u")).workspace.symbol? ".foo.M").map (·.uri) = some ("w" : Text) := by
  have absent : two.workspace.file? "u" = none := by decide +kernel
  have once : (two.update (dotted "u")).workspace.index =
      two.workspace.index.addAll (dotted "u").symbols :=
    Workspace.index_update_of_absent absent
  have stripped : Workspace.absoluteName ".foo.M" = "foo.M" := by decide
  have same : (plain "u").uri = (dotted "u").uri := (uri_plain "u").trans (uri_dotted "u").symm
  have declared : ∃ t ∈ (plain "u").symbols, t.fullName = "foo.M" := by decide +kernel
  have dropped : (dotted "u").symbols.filter (·.fullName = ("foo.M" : Text)) = [] := by
    decide +kernel
  have twice : ((two.update (plain "u")).update (dotted "u")).workspace.index.holder? "foo.M" =
      (two.workspace.indexWithout "u").heir? (simpleName "foo.M") "foo.M" :=
    Workspace.holder?_update_update_of_dropped same reachable_two.indexed (proper_plain "u")
      declared dropped
  refine ⟨reachable_two, by decide +kernel, ?_, ?_⟩
  · rw [Workspace.symbol?, stripped, twice, SymbolIndex.heir?, Workspace.indexWithout, absent,
      index_two, SymbolIndex.named_addAll, SymbolIndex.named_addAll, SymbolIndex.named_empty]
    decide +kernel
  · rw [Workspace.symbol?, once, index_two, SymbolIndex.holder?_addAll, SymbolIndex.holder?_addAll,
      SymbolIndex.holder?_addAll, SymbolIndex.holder?_empty]
    decide +kernel

end PassedOn
end ProtoAtlas
