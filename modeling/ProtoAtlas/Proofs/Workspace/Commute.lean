/-
# Updates of different files commute

Two files are loaded one after the other, in either order.  Each takes the symbols of
its earlier text out of the index, and a full name that leaves with them is passed on.
The earlier texts may declare one full name, and other files may declare it too, so in
one order a name may go from the first file to the second and from there to a third, and
in the other order to the third at once.

What a file passes on is a function of the symbols under the simple name and of the
holder (`SymbolIndex.passedOn`).  Of these functions those of two files commute: both
ways a name that either file holds ends at the earliest symbol of the files besides.
-/

import ProtoAtlas.Proofs.Workspace.Replaced

namespace ProtoAtlas
namespace SymbolIndex

/-- The holder of a full name after a file leaves, by the symbols that may have the name
and by the holder before. -/
def passedOn (uri fullName : Text) (listed : List Symbol) (holder : Option Symbol) :
    Option Symbol :=
  holder.bind fun held =>
    if held.uri = uri then (listed.filter (·.uri ≠ uri)).find? (·.fullName = fullName)
    else some held

section PassedOn

variable {uri uri' fullName : Text} {listed : List Symbol}

theorem passedOn_of_own {held : Symbol} (its : held.uri = uri) :
    passedOn uri fullName listed (some held) =
      (listed.filter (·.uri ≠ uri)).find? (·.fullName = fullName) :=
  if_pos its

theorem passedOn_of_foreign {held : Symbol} (other : held.uri ≠ uri) :
    passedOn uri fullName listed (some held) = some held :=
  if_neg other

/-- The earliest symbol passes the name on to the earliest of the others. -/
theorem passedOn_find? : passedOn uri fullName listed (listed.find? (·.fullName = fullName)) =
    (listed.filter (·.uri ≠ uri)).find? (·.fullName = fullName) := by
  induction listed with
  | nil => rfl
  | cons s rest ih =>
    by_cases same : s.fullName = fullName
    · rw [List.find?_cons_of_pos (by simpa using same)]
      by_cases its : s.uri = uri
      · exact passedOn_of_own its
      · rw [passedOn_of_foreign its, List.filter_cons_of_pos (by simpa using its),
          List.find?_cons_of_pos (by simpa using same)]
    · -- A symbol with another full name is skipped in every search.
      have skipped : ((s :: rest).filter (·.uri ≠ uri)).find? (·.fullName = fullName) =
          (rest.filter (·.uri ≠ uri)).find? (·.fullName = fullName) := by
        by_cases its : s.uri = uri
        · rw [List.filter_cons_of_neg (by simpa using its)]
        · rw [List.filter_cons_of_pos (by simpa using its),
            List.find?_cons_of_neg (by simpa using same)]
      rw [passedOn, List.find?_cons_of_neg (by simpa using same), skipped]
      exact ih

/-- **Two files pass a name on in either order.** -/
theorem passedOn_comm (different : uri ≠ uri') (holder : Option Symbol) :
    passedOn uri' fullName (listed.filter (·.uri ≠ uri)) (passedOn uri fullName listed holder) =
      passedOn uri fullName (listed.filter (·.uri ≠ uri'))
        (passedOn uri' fullName listed holder) := by
  have swapped : (listed.filter (·.uri ≠ uri)).filter (·.uri ≠ uri') =
      (listed.filter (·.uri ≠ uri')).filter (·.uri ≠ uri) := by
    simp only [List.filter_filter, Bool.and_comm]
  cases holder with
  | none => rfl
  | some held =>
    by_cases its : held.uri = uri
    · have other : held.uri ≠ uri' := its ▸ different
      rw [passedOn_of_own its, passedOn_find?, swapped, passedOn_of_foreign other,
        passedOn_of_own its]
    · rw [passedOn_of_foreign its]
      by_cases its' : held.uri = uri'
      · rw [passedOn_of_own its', passedOn_of_own its', passedOn_find?, swapped]
      · rw [passedOn_of_foreign its', passedOn_of_foreign its', passedOn_of_foreign its]

/-- Symbols with other full names do not matter. -/
theorem passedOn_append {more : List Symbol} (other : ∀ s ∈ more, s.fullName ≠ fullName)
    (holder : Option Symbol) : passedOn uri fullName (listed ++ more) holder =
      passedOn uri fullName listed holder := by
  have none : (more.filter (·.uri ≠ uri)).find? (·.fullName = fullName) = none := by
    rw [List.find?_eq_none]
    intro s hs same
    exact other s (List.mem_filter.1 hs).1 (of_decide_eq_true same)
  unfold passedOn
  rw [List.filter_append, List.find?_append, none, Option.or_none]

end PassedOn

/-- Adding symbols with other full names does not change a holder. -/
theorem holder?_addAll_of_undeclared {new : List Symbol} {fullName : Text}
    (other : ∀ s ∈ new, s.fullName ≠ fullName) (ix : SymbolIndex) :
    (ix.addAll new).holder? fullName = ix.holder? fullName := by
  have none : new.filter (·.fullName = fullName) = [] := by
    rw [List.filter_eq_nil_iff]
    intro s hs same
    exact other s hs (of_decide_eq_true same)
  rw [holder?_addAll, none]
  rfl

end SymbolIndex

namespace Workspace

open SymbolIndex

/-! ### A file that leaves -/

theorem indexWithout_of_loaded {w : Workspace} {uri : Text} {r : FileRecord}
    (loaded : w.file? uri = some r) : w.indexWithout uri = w.index.removeAll uri r.symbols := by
  rw [indexWithout, loaded]

namespace Indexed

variable {w : Workspace} (h : w.Indexed)
include h

/-- The symbols in the index with the URI of a file are those of the file. -/
theorem mem_symbolsIn {uri name : Text} {s : Symbol} (hs : s ∈ w.index.named name)
    (its : s.uri = uri) : ∃ r, w.file? uri = some r ∧ s ∈ r.symbols := by
  rw [(h.covers.named name).mem_iff] at hs
  obtain ⟨r, hr, declared⟩ := List.mem_flatMap.1 (List.mem_filter.1 hs).1
  have own : r.uri = uri := (h.proper r hr s declared).uri.symm.trans its
  have found : (w.file? uri).isSome := List.find?_isSome.2 ⟨r, hr, decide_eq_true own⟩
  obtain ⟨r', found⟩ := Option.isSome_iff_exists.1 found
  have own' : r'.uri = uri := by simpa using List.find?_some found
  have one : r = r' :=
    List.inj_on_of_nodup_map h.distinct hr (List.mem_of_find?_eq_some found) (own.trans own'.symm)
  exact ⟨r', found, one ▸ declared⟩

/-- Under a simple name the symbols of the other files stay, in order. -/
theorem named_indexWithout (uri name : Text) :
    (w.indexWithout uri).named name = (w.index.named name).filter (·.uri ≠ uri) := by
  unfold indexWithout
  cases found : w.file? uri with
  | none =>
    have foreign : ∀ s ∈ w.index.named name, s.uri ≠ uri := by
      intro s hs its
      obtain ⟨r, loaded, -⟩ := h.mem_symbolsIn hs its
      rw [found] at loaded
      cases loaded
    exact (List.filter_eq_self.2 fun s hs => decide_eq_true (foreign s hs)).symm
  | some r =>
    dsimp only
    rw [removeAll, named_foldl_passOn, named_foldl_dropSimple]
    split
    · rfl
    · next absent =>
      have foreign : ∀ s ∈ w.index.named name, s.uri ≠ uri := by
        intro s hs its
        obtain ⟨r', loaded, declared⟩ := h.mem_symbolsIn hs its
        rw [found] at loaded
        cases loaded
        rw [(h.covers.named name).mem_iff] at hs
        exact absent ⟨s, declared, of_decide_eq_true (List.mem_filter.1 hs).2⟩
      exact (List.filter_eq_self.2 fun s hs => decide_eq_true (foreign s hs)).symm

/-- **The holder of a full name when a file leaves.** -/
theorem holder?_indexWithout (uri fullName : Text) :
    (w.indexWithout uri).holder? fullName =
      passedOn uri fullName (w.index.named (simpleName fullName)) (w.index.holder? fullName) := by
  have holder := h.covers.holders fullName
  cases found : w.index.holder? fullName with
  | none =>
    have held := (h.covers_indexWithout uri).holders fullName
    rw [found] at holder
    cases after : (w.indexWithout uri).holder? fullName with
    | none => rfl
    | some t =>
      rw [after, flatMap_symbols_filter uri h.proper] at held
      exact absurd held.2 (holder t (List.mem_filter.1 held.1).1)
  | some held =>
    rw [found] at holder
    obtain ⟨r, hr, declared⟩ := List.mem_flatMap.1 holder.1
    have proper := h.proper r hr held declared
    have named : w.index.named (simpleName fullName) = w.index.named held.name := by
      rw [← proper.last, holder.2]
    have listed : held ∈ w.index.named held.name :=
      (h.covers.named _).mem_iff.2 (List.mem_filter.2 ⟨holder.1, decide_eq_true rfl⟩)
    by_cases its : held.uri = uri
    · obtain ⟨r, loaded, declared⟩ := h.mem_symbolsIn listed its
      have before : (r.symbols.foldl (dropSimple uri) w.index).holder? fullName = some held := by
        rw [holder?_foldl_dropSimple, found]
      have dropped : ∀ name, (r.symbols.foldl (dropSimple uri) w.index).named name =
          (w.index.named name).filter (·.uri ≠ uri) := by
        intro name
        rw [← h.named_indexWithout, indexWithout_of_loaded loaded, removeAll, named_foldl_passOn]
      have foreign : ∀ t ∈ (r.symbols.foldl (dropSimple uri) w.index).named held.name,
          t.uri ≠ uri := by
        intro t ht
        rw [dropped] at ht
        exact of_decide_eq_true (List.mem_filter.1 ht).2
      have names : ∀ t ∈ r.symbols, t.fullName = fullName → t.name = held.name := by
        intro t ht same
        exact h.distinguished t (List.mem_flatMap.2 ⟨r, List.mem_of_find?_eq_some loaded, ht⟩)
          held holder.1 (same.trans holder.2.symm)
      rw [passedOn_of_own its, named, indexWithout_of_loaded loaded, removeAll,
        holder?_foldl_passOn_of_own before its foreign names ⟨held, declared, holder.2⟩, heir?,
        dropped]
    · rw [passedOn_of_foreign its]
      unfold indexWithout
      split
      · exact found
      · rw [removeAll, holder?_foldl_passOn_of_foreign, holder?_foldl_dropSimple, found]
        intro t ht
        rw [holder?_foldl_dropSimple, found] at ht
        cases ht
        exact its

end Indexed

/-! ### Two files, in either order -/

/-- The file that was loaded has its URI, and the others have theirs. -/
theorem file?_update (w : Workspace) (r : FileRecord) (uri : Text) :
    (w.update r).file? uri = if r.uri = uri then some r else w.file? uri := by
  split
  · next its =>
    subst its
    exact find?_putFile w.files r
  · next other =>
    have kept : ∀ files : List FileRecord,
        (files.filter (·.uri ≠ r.uri)).find? (·.uri = uri) = files.find? (·.uri = uri) := by
      intro files
      rw [List.find?_filter]
      congr 1
      funext old
      by_cases its : old.uri = uri
      · simp [its, Ne.symm other]
      · simp [its]
    change (putFile w.files r).find? (·.uri = uri) = w.files.find? (·.uri = uri)
    rw [← kept, filter_putFile, kept]

theorem file?_update_comm {a b : FileRecord} (different : a.uri ≠ b.uri) (w : Workspace)
    (uri : Text) :
    ((w.update a).update b).file? uri = ((w.update b).update a).file? uri := by
  rw [file?_update, file?_update, file?_update, file?_update]
  by_cases first : a.uri = uri
  · rw [if_pos first, if_neg fun second => different (first.trans second.symm), if_pos first]
  · rw [if_neg first, if_neg first]

section Both

variable {w : Workspace} {a b : FileRecord} (h : w.Indexed) (different : a.uri ≠ b.uri)
  (properA : ∀ s ∈ a.symbols, s.Proper a.uri) (properB : ∀ s ∈ b.symbols, s.Proper b.uri)
include h properA

/-- A full name that neither file declares any more is passed on by both. -/
theorem holder?_update_both_of_undeclared {fullName : Text}
    (otherA : ∀ s ∈ a.symbols, s.fullName ≠ fullName)
    (otherB : ∀ s ∈ b.symbols, s.fullName ≠ fullName) :
    ((w.update a).update b).index.holder? fullName =
      passedOn b.uri fullName
        ((w.index.named (simpleName fullName)).filter (·.uri ≠ a.uri))
        (passedOn a.uri fullName (w.index.named (simpleName fullName))
          (w.index.holder? fullName)) := by
  change (((w.update a).indexWithout b.uri).addAll b.symbols).holder? fullName = _
  rw [holder?_addAll_of_undeclared otherB, (h.update properA).holder?_indexWithout]
  change passedOn _ _ (((w.indexWithout a.uri).addAll a.symbols).named (simpleName fullName))
    (((w.indexWithout a.uri).addAll a.symbols).holder? fullName) = _
  rw [holder?_addAll_of_undeclared otherA, named_addAll,
    passedOn_append fun s hs => otherA s (List.mem_filter.1 hs).1, h.named_indexWithout,
    h.holder?_indexWithout]

include different

/-- The symbols under a simple name, after both. -/
theorem named_update_both (name : Text) :
    ((w.update a).update b).index.named name =
      ((w.index.named name).filter (·.uri ≠ a.uri)).filter (·.uri ≠ b.uri) ++
        a.symbols.filter (·.name = name) ++ b.symbols.filter (·.name = name) := by
  have kept : (a.symbols.filter (·.name = name)).filter (·.uri ≠ b.uri) =
      a.symbols.filter (·.name = name) := by
    refine List.filter_eq_self.2 fun s hs => decide_eq_true ?_
    rw [(properA s (List.mem_filter.1 hs).1).uri]
    exact different
  change (((w.update a).indexWithout b.uri).addAll b.symbols).named name = _
  rw [named_addAll, (h.update properA).named_indexWithout]
  change (((w.indexWithout a.uri).addAll a.symbols).named name).filter _ ++ _ = _
  rw [named_addAll, h.named_indexWithout, List.filter_append, kept]

/-- A full name that the first file declares and the second does not goes to the last
symbol of the first, in either order. -/
theorem holder?_update_comm_of_declared {fullName : Text}
    (declared : ∃ s ∈ a.symbols, s.fullName = fullName)
    (other : ∀ s ∈ b.symbols, s.fullName ≠ fullName) :
    ((w.update a).update b).index.holder? fullName =
      ((w.update b).update a).index.holder? fullName := by
  have own : ∀ ix : SymbolIndex, ∀ t, (ix.addAll a.symbols).holder? fullName = some t →
      t.uri = a.uri := by
    intro ix t found
    obtain ⟨s, hs, same⟩ := declared
    have listed : s ∈ a.symbols.filter (·.fullName = fullName) :=
      List.mem_filter.2 ⟨hs, decide_eq_true same⟩
    rw [holder?_addAll, List.getLast?_eq_some_getLast (List.ne_nil_of_mem listed),
      Option.some_or] at found
    cases found
    exact (properA _ (List.mem_filter.1 (List.getLast_mem _)).1).uri
  change (((w.update a).indexWithout b.uri).addAll b.symbols).holder? fullName = _
  rw [holder?_addAll_of_undeclared other, (h.update properA).holder?_indexWithout]
  change passedOn _ _ _ (((w.indexWithout a.uri).addAll a.symbols).holder? fullName) =
    (((w.update b).indexWithout a.uri).addAll a.symbols).holder? fullName
  rw [holder?_addAll_of_declared declared ((w.update b).indexWithout a.uri) (w.indexWithout a.uri)]
  cases found : ((w.indexWithout a.uri).addAll a.symbols).holder? fullName with
  | none => rfl
  | some t =>
    refine passedOn_of_foreign ?_
    rw [own _ t found]
    exact different

include properB

theorem named_update_comm (name : Text) : (((w.update a).update b).index.named name).Perm
    (((w.update b).update a).index.named name) := by
  have swapped : ((w.index.named name).filter (·.uri ≠ a.uri)).filter (·.uri ≠ b.uri) =
      ((w.index.named name).filter (·.uri ≠ b.uri)).filter (·.uri ≠ a.uri) := by
    simp only [List.filter_filter, Bool.and_comm]
  rw [named_update_both h different properA, named_update_both h (Ne.symm different) properB,
    swapped, List.append_assoc, List.append_assoc]
  exact List.perm_append_comm.append_left _

/-- **Either order gives a full name to the same symbol.** -/
theorem holder?_update_comm
    (apart : ∀ s ∈ a.symbols, ∀ t ∈ b.symbols, s.fullName ≠ t.fullName) (fullName : Text) :
    ((w.update a).update b).index.holder? fullName =
      ((w.update b).update a).index.holder? fullName := by
  by_cases byA : ∃ s ∈ a.symbols, s.fullName = fullName
  · obtain ⟨s, hs, rfl⟩ := byA
    exact holder?_update_comm_of_declared h different properA ⟨s, hs, rfl⟩ fun t ht =>
      Ne.symm (apart s hs t ht)
  · have otherA : ∀ s ∈ a.symbols, s.fullName ≠ fullName := fun s hs same => byA ⟨s, hs, same⟩
    by_cases byB : ∃ t ∈ b.symbols, t.fullName = fullName
    · exact (holder?_update_comm_of_declared h (Ne.symm different) properB byB otherA).symm
    · have otherB : ∀ s ∈ b.symbols, s.fullName ≠ fullName := fun s hs same => byB ⟨s, hs, same⟩
      rw [holder?_update_both_of_undeclared h properA otherA otherB,
        holder?_update_both_of_undeclared h properB otherB otherA,
        passedOn_comm different]

end Both
end Workspace

/-- **Updates of different files commute.**  In every reachable session, load two texts
that declare no common full name under two different URIs, in either order.  Every name
is held by the same symbol, every file has the same symbols, and under every simple name
the index has the same symbols, each as often. -/
theorem updates_of_different_files_commute (s : Session) (h : s.Reachable)
    (uri₁ uri₂ treeUri₁ source₁ treeUri₂ source₂ : Text) (logical₁ logical₂ : Option Text)
    (different : uri₁ ≠ uri₂) :
    let first := FileRecord.ofTree uri₁ (SchemaFile.parse treeUri₁ source₁) logical₁
    let second := FileRecord.ofTree uri₂ (SchemaFile.parse treeUri₂ source₂) logical₂
    let oneWay := ((s.update first).update second).workspace
    let otherWay := ((s.update second).update first).workspace
    (∀ a ∈ first.symbols, ∀ b ∈ second.symbols, a.fullName ≠ b.fullName) →
      (∀ name, oneWay.symbol? name = otherWay.symbol? name) ∧
      (∀ uri, oneWay.symbolsIn uri = otherWay.symbolsIn uri) ∧
      ∀ name, (oneWay.index.named name).Perm (otherWay.index.named name) := by
  intro first second oneWay otherWay apart
  have proper₁ : ∀ a ∈ first.symbols, a.Proper first.uri :=
    SchemaFile.proper_of_mem_symbols_parse uri₁ treeUri₁ source₁
  have proper₂ : ∀ b ∈ second.symbols, b.Proper second.uri :=
    SchemaFile.proper_of_mem_symbols_parse uri₂ treeUri₂ source₂
  refine ⟨fun name => ?_, fun uri => ?_, fun name => ?_⟩
  · exact Workspace.holder?_update_comm h.indexed different proper₁ proper₂ apart _
  · have files : oneWay.file? uri = otherWay.file? uri :=
      Workspace.file?_update_comm different s.workspace uri
    rw [Workspace.symbolsIn, Workspace.symbolsIn, files]
  · exact Workspace.named_update_comm h.indexed different proper₁ proper₂ name

namespace PassedOn

/-- A workspace with three files that declare `foo.M`; the one loaded last holds it. -/
def three : Session := two.update (plain "u")

theorem reachable_three : three.Reachable := reachable_two.update _ _ _ none

theorem index_three : three.workspace.index =
    ((SymbolIndex.empty.addAll (plain "v").symbols).addAll (plain "w").symbols).addAll
      (plain "u").symbols := by
  rw [← index_two]
  exact Workspace.index_update_of_absent (by decide +kernel)

/-- The holder and the file that is next give `foo.M` up.  If the holder is first, the
name goes to the next file and from there to the third; if not, it goes to the third
at once. -/
theorem name_skips_file_that_gave_it_up : three.Reachable ∧ ("u" : Text) ≠ "v" ∧
    (((three.update (.ofText "u" "message A \x7b \x7d")).update
      (.ofText "v" "message B \x7b \x7d")).workspace.symbol? "foo.M").map (·.uri) =
        some ("w" : Text) ∧
    (((three.update (.ofText "v" "message B \x7b \x7d")).update
      (.ofText "u" "message A \x7b \x7d")).workspace.symbol? "foo.M").map (·.uri) =
        some ("w" : Text) := by
  have different : ("u" : Text) ≠ "v" := by decide
  have otherA : ∀ s ∈ (FileRecord.ofText "u" "message A \x7b \x7d").symbols,
      s.fullName ≠ "foo.M" := by
    decide +kernel
  have otherB : ∀ s ∈ (FileRecord.ofText "v" "message B \x7b \x7d").symbols,
      s.fullName ≠ "foo.M" := by
    decide +kernel
  have same := (updates_of_different_files_commute three reachable_three "u" "v" "u"
    "message A \x7b \x7d" "v" "message B \x7b \x7d" none none different
    (by decide +kernel)).1 "foo.M"
  have oneWay : (((three.update (.ofText "u" "message A \x7b \x7d")).update
      (.ofText "v" "message B \x7b \x7d")).workspace.symbol? "foo.M").map (·.uri) =
        some ("w" : Text) := by
    have passed := Workspace.holder?_update_both_of_undeclared reachable_three.indexed
      (SchemaFile.proper_of_mem_symbols_parse "u" "u" "message A \x7b \x7d") otherA otherB
    rw [Workspace.symbol?, show Workspace.absoluteName "foo.M" = "foo.M" by decide]
    refine (congrArg (Option.map (·.uri)) passed).trans ?_
    rw [index_three, SymbolIndex.holder?_addAll, SymbolIndex.holder?_addAll,
      SymbolIndex.holder?_addAll, SymbolIndex.holder?_empty, SymbolIndex.named_addAll,
      SymbolIndex.named_addAll, SymbolIndex.named_addAll, SymbolIndex.named_empty]
    decide +kernel
  refine ⟨reachable_three, different, oneWay, ?_⟩
  rw [← oneWay]
  exact congrArg (Option.map (·.uri)) same.symm

end PassedOn
end ProtoAtlas
