/-
# What a symbol index covers

An index covers a list of symbols if it finds exactly them: by simple name every
symbol as often as it stands in the list, and by full name one symbol of the list
for every full name there is.

Adding symbols adds them to what is covered (`Covers.addAll`).  Removing the symbols
of a file takes away those with its URI (`Covers.removeAll`), although a full name
that the file held has to be passed on: an heir is looked for among the symbols
with one simple name, and that finds all symbols with the full name because equal
full names have equal last parts (`Distinguished`).
-/

import Mathlib.Tactic.SplitIfs
import ProtoAtlas.Symbol.Index

namespace ProtoAtlas

/-- Symbols with one full name have one simple name. -/
def Distinguished (symbols : List Symbol) : Prop :=
  ∀ s ∈ symbols, ∀ t ∈ symbols, s.fullName = t.fullName → s.name = t.name

namespace SymbolIndex

/-- What a full name should be held by among some symbols: by one of those with that
full name, and by none only if there is none. -/
def HeldIn (symbols : List Symbol) (fullName : Text) : Option Symbol → Prop
  | none => ∀ s ∈ symbols, s.fullName ≠ fullName
  | some held => held ∈ symbols ∧ held.fullName = fullName

/-- No simple name has an entry without symbols. -/
def NoEmptyEntry (ix : SymbolIndex) : Prop :=
  ∀ (name : Text) (entry : List Symbol), ix.simple[name]? = some entry → entry ≠ []

/-- An index finds exactly the given symbols. -/
structure Covers (ix : SymbolIndex) (symbols : List Symbol) : Prop where
  named : ∀ name, (ix.named name).Perm (symbols.filter (·.name = name))
  entries : ix.NoEmptyEntry
  holders : ∀ fullName, HeldIn symbols fullName (ix.holder? fullName)

theorem covers_empty : empty.Covers [] where
  named := fun name => by simp
  entries := fun name entry h => by simp [empty] at h
  holders := fun fullName => by
    rw [holder?_empty]
    intro s hs
    cases hs

theorem HeldIn.perm {symbols symbols' : List Symbol} (h : symbols.Perm symbols') {fullName : Text}
    {o : Option Symbol} (held : HeldIn symbols fullName o) : HeldIn symbols' fullName o := by
  cases o with
  | none => exact fun s hs => held s (h.mem_iff.2 hs)
  | some t => exact ⟨h.mem_iff.1 held.1, held.2⟩

/-- The order of the symbols does not matter. -/
theorem Covers.perm {ix : SymbolIndex} {symbols symbols' : List Symbol} (h : ix.Covers symbols)
    (same : symbols.Perm symbols') : ix.Covers symbols' where
  named := fun name => (h.named name).trans (same.filter _)
  entries := h.entries
  holders := fun fullName => (h.holders fullName).perm same

/-! ### Adding symbols -/

theorem entry_add (ix : SymbolIndex) (s : Symbol) (name : Text) (entry : List Symbol)
    (h : (ix.add s).simple[name]? = some entry) :
    entry ≠ [] ∨ ix.simple[name]? = some entry := by
  unfold add at h
  rw [Std.HashMap.getElem?_alter] at h
  split at h
  · cases h
    exact Or.inl (by simp)
  · exact Or.inr h

/-- **Adding a symbol covers it too.** -/
theorem Covers.add {ix : SymbolIndex} {symbols : List Symbol} (h : ix.Covers symbols) (s : Symbol) :
    (ix.add s).Covers (symbols ++ [s]) where
  named := fun name => by
    rw [named_add, List.filter_append]
    by_cases same : s.name = name
    · simpa [same] using (h.named name).append_right [s]
    · simpa [same] using h.named name
  entries := fun name entry found => by
    rcases entry_add ix s name entry found with new | old
    · exact new
    · exact h.entries name entry old
  holders := fun fullName => by
    rw [holder?_add]
    split_ifs with same
    · exact ⟨by simp, same⟩
    · have held := h.holders fullName
      cases found : ix.holder? fullName with
      | none =>
        rw [found] at held
        intro t ht
        rcases List.mem_append.1 ht with ht | ht
        · exact held t ht
        · rw [List.mem_singleton.1 ht]
          exact same
      | some t =>
        rw [found] at held
        exact ⟨List.mem_append_left _ held.1, held.2⟩

theorem Covers.addAll {ix : SymbolIndex} {symbols : List Symbol} (h : ix.Covers symbols)
    (new : List Symbol) : (ix.addAll new).Covers (symbols ++ new) := by
  induction new generalizing ix symbols with
  | nil => simpa [SymbolIndex.addAll] using h
  | cons s rest ih =>
    have step := ih (h.add s)
    rwa [List.append_assoc, List.singleton_append] at step

/-! ### Dropping the symbols of a file by simple name -/

section Drop

variable (uri : Text)

theorem named_dropSimple (ix : SymbolIndex) (s : Symbol) (name : Text) :
    (dropSimple uri ix s).named name =
      if s.name = name then (ix.named name).filter (·.uri ≠ uri) else ix.named name := by
  unfold dropSimple named
  rw [Std.HashMap.getD_alter]
  by_cases same : s.name = name
  · subst same
    rw [if_pos (by simp), if_pos rfl, Std.HashMap.getD_eq_getD_getElem?, entryWithout]
    split
    · next none => rw [none]; rfl
    · rfl
  · rw [if_neg (by simpa using same), if_neg same]

/-- Dropping the symbols of a file under some simple names. -/
theorem named_foldl_dropSimple (dropped : List Symbol) (ix : SymbolIndex) (name : Text) :
    (dropped.foldl (dropSimple uri) ix).named name =
      if ∃ s ∈ dropped, s.name = name then (ix.named name).filter (·.uri ≠ uri)
      else ix.named name := by
  induction dropped generalizing ix with
  | nil => simp
  | cons s rest ih =>
    rw [List.foldl_cons, ih, named_dropSimple]
    by_cases same : s.name = name
    · by_cases more : ∃ t ∈ rest, t.name = name
      · simp [same, more]
      · simp [same, more]
    · simp [same]

theorem NoEmptyEntry.dropSimple {ix : SymbolIndex} (h : ix.NoEmptyEntry) (s : Symbol) :
    (dropSimple uri ix s).NoEmptyEntry := by
  intro name entry found
  unfold SymbolIndex.dropSimple at found
  rw [Std.HashMap.getElem?_alter] at found
  split at found
  · unfold entryWithout at found
    split at found
    · cases found
    · next kept =>
      cases found
      exact kept
  · exact h name entry found

theorem NoEmptyEntry.foldl_dropSimple {ix : SymbolIndex} (h : ix.NoEmptyEntry)
    (dropped : List Symbol) : (dropped.foldl (SymbolIndex.dropSimple uri) ix).NoEmptyEntry := by
  induction dropped generalizing ix with
  | nil => exact h
  | cons s rest ih => exact ih (h.dropSimple uri s)

theorem holder?_foldl_dropSimple (dropped : List Symbol) (ix : SymbolIndex) (fullName : Text) :
    (dropped.foldl (dropSimple uri) ix).holder? fullName = ix.holder? fullName := by
  induction dropped generalizing ix with
  | nil => rfl
  | cons s rest ih => exact ih _

end Drop

/-! ### Passing on the full names of a file -/

section PassOn

variable (uri : Text)

/-- A full name that the file holds goes to the heir; nothing else changes. -/
theorem holder?_passOn (ix : SymbolIndex) (s : Symbol) (fullName : Text) :
    (passOn uri ix s).holder? fullName =
      if s.fullName = fullName then
        match ix.holder? fullName with
        | none => none
        | some held => if held.uri = uri then ix.heir? s.name fullName else some held
      else ix.holder? fullName := by
  by_cases same : s.fullName = fullName
  · subst same
    rw [if_pos rfl]
    unfold passOn
    cases found : ix.holder? s.fullName with
    | none => exact found
    | some held =>
      dsimp only
      split_ifs with own
      · cases heir : ix.heir? s.name s.fullName with
        | none => simp [holder?]
        | some t => simp [holder?]
      · exact found
  · rw [if_neg same]
    unfold passOn
    cases ix.holder? s.fullName with
    | none => rfl
    | some held =>
      dsimp only
      split_ifs
      · cases ix.heir? s.name s.fullName with
        | none => simp [holder?, Std.HashMap.getElem?_erase, same]
        | some t => simp [holder?, Std.HashMap.getElem?_insert, same]
      · rfl

/-- The simple names do not change. -/
theorem named_foldl_passOn (passed : List Symbol) (ix : SymbolIndex) (name : Text) :
    (passed.foldl (passOn uri) ix).named name = ix.named name := by
  induction passed generalizing ix with
  | nil => rfl
  | cons s rest ih => exact ih _

theorem NoEmptyEntry.foldl_passOn {ix : SymbolIndex} (h : ix.NoEmptyEntry) (passed : List Symbol) :
    (passed.foldl (passOn uri) ix).NoEmptyEntry := by
  induction passed generalizing ix with
  | nil => exact h
  | cons s rest ih => exact ih h

theorem holder?_foldl_passOn {passed : List Symbol} {fullName : Text}
    (other : ∀ s ∈ passed, s.fullName ≠ fullName) (ix : SymbolIndex) :
    (passed.foldl (passOn uri) ix).holder? fullName = ix.holder? fullName := by
  induction passed generalizing ix with
  | nil => rfl
  | cons s rest ih =>
    rw [List.foldl_cons, ih fun t ht => other t (List.mem_cons_of_mem s ht), holder?_passOn,
      if_neg (other s List.mem_cons_self)]

variable {symbols : List Symbol} (distinguished : Distinguished symbols)
include distinguished

/-- **The heir is found.**  After its full name is passed on, a symbol's full name is
held by a symbol of another file, if any other file has a symbol with it. -/
theorem heldIn_passOn {ix : SymbolIndex} {s : Symbol} (hs : s ∈ symbols)
    (named : ∀ name, (ix.named name).Perm
      ((symbols.filter (·.uri ≠ uri)).filter (·.name = name)))
    (held : HeldIn symbols s.fullName (ix.holder? s.fullName) ∨
      HeldIn (symbols.filter (·.uri ≠ uri)) s.fullName (ix.holder? s.fullName)) :
    HeldIn (symbols.filter (·.uri ≠ uri)) s.fullName
      ((passOn uri ix s).holder? s.fullName) := by
  rw [holder?_passOn, if_pos rfl]
  cases found : ix.holder? s.fullName with
  | none =>
    rw [found] at held
    rcases held with held | held
    · exact fun t ht => held t (List.mem_filter.1 ht).1
    · exact held
  | some t =>
    rw [found] at held
    have all : t ∈ symbols ∧ t.fullName = s.fullName :=
      held.elim id fun h => ⟨(List.mem_filter.1 h.1).1, h.2⟩
    dsimp only
    split_ifs with own
    · cases heir : ix.heir? s.name s.fullName with
      | none =>
        intro u hu same
        have listed : u ∈ ix.named s.name := by
          rw [(named s.name).mem_iff, List.mem_filter, decide_eq_true_eq]
          exact ⟨hu, distinguished u (List.mem_filter.1 hu).1 s hs same⟩
        have := List.find?_eq_none.1 heir u listed
        exact this (decide_eq_true same)
      | some u =>
        have listed := List.mem_of_find?_eq_some heir
        rw [(named s.name).mem_iff, List.mem_filter] at listed
        have same := List.find?_some heir
        exact ⟨listed.1, of_decide_eq_true same⟩
    · exact ⟨List.mem_filter.2 ⟨all.1, decide_eq_true own⟩, all.2⟩

theorem heldIn_foldl_passOn {passed : List Symbol} (sub : ∀ s ∈ passed, s ∈ symbols)
    {ix : SymbolIndex}
    (named : ∀ name, (ix.named name).Perm
      ((symbols.filter (·.uri ≠ uri)).filter (·.name = name)))
    {fullName : Text} (among : ∃ s ∈ passed, s.fullName = fullName)
    (held : HeldIn symbols fullName (ix.holder? fullName) ∨
      HeldIn (symbols.filter (·.uri ≠ uri)) fullName (ix.holder? fullName)) :
    HeldIn (symbols.filter (·.uri ≠ uri)) fullName
      ((passed.foldl (passOn uri) ix).holder? fullName) := by
  induction passed generalizing ix with
  | nil =>
    obtain ⟨s, hs, -⟩ := among
    cases hs
  | cons s rest ih =>
    have later := fun t ht => sub t (List.mem_cons_of_mem s ht)
    have step := heldIn_passOn uri distinguished (sub s List.mem_cons_self) named
    rw [List.foldl_cons]
    by_cases more : ∃ t ∈ rest, t.fullName = fullName
    · refine ih later named more ?_
      by_cases same : s.fullName = fullName
      · subst same
        exact Or.inr (step held)
      · rwa [holder?_passOn, if_neg same]
    · have same : s.fullName = fullName := by
        obtain ⟨t, ht, same⟩ := among
        rcases List.mem_cons.1 ht with rfl | ht
        · exact same
        · exact absurd ⟨t, ht, same⟩ more
      subst same
      rw [holder?_foldl_passOn uri fun t ht same => more ⟨t, ht, same⟩]
      exact step held

/-- **Removing the symbols of a file** leaves an index of those of the other files. -/
theorem Covers.removeAll {ix : SymbolIndex} (h : ix.Covers symbols) {removed : List Symbol}
    (own : ∀ s, s ∈ removed ↔ s ∈ symbols ∧ s.uri = uri) :
    (ix.removeAll uri removed).Covers (symbols.filter (·.uri ≠ uri)) := by
  have named : ∀ name, ((removed.foldl (dropSimple uri) ix).named name).Perm
      ((symbols.filter (·.uri ≠ uri)).filter (·.name = name)) := by
    intro name
    have swapped : (symbols.filter (·.uri ≠ uri)).filter (·.name = name) =
        (symbols.filter (·.name = name)).filter (·.uri ≠ uri) := by
      simp only [List.filter_filter, Bool.and_comm]
    rw [named_foldl_dropSimple, swapped]
    split_ifs with some
    · exact (h.named name).filter _
    · -- No symbol of the file has this name, so there is nothing to take away.
      rw [List.filter_eq_self.2]
      · exact h.named name
      · intro s hs
        obtain ⟨hs, same⟩ := List.mem_filter.1 hs
        rw [decide_eq_true_eq]
        intro its
        exact some ⟨s, (own s).2 ⟨hs, its⟩, of_decide_eq_true same⟩
  refine ⟨fun name => ?_, (h.entries.foldl_dropSimple uri removed).foldl_passOn uri removed,
    fun fullName => ?_⟩
  · rw [SymbolIndex.removeAll, named_foldl_passOn]
    exact named name
  · have before := h.holders fullName
    rw [← holder?_foldl_dropSimple uri removed] at before
    rw [SymbolIndex.removeAll]
    by_cases among : ∃ s ∈ removed, s.fullName = fullName
    · exact heldIn_foldl_passOn uri distinguished (fun s hs => ((own s).1 hs).1) named among
        (Or.inl before)
    · rw [holder?_foldl_passOn uri fun s hs same => among ⟨s, hs, same⟩]
      cases found : (removed.foldl (dropSimple uri) ix).holder? fullName with
      | none =>
        rw [found] at before
        exact fun s hs => before s (List.mem_filter.1 hs).1
      | some s =>
        rw [found] at before
        refine ⟨List.mem_filter.2 ⟨before.1, decide_eq_true ?_⟩, before.2⟩
        exact fun its => among ⟨s, (own s).2 ⟨before.1, its⟩, before.2⟩

end PassOn
end SymbolIndex
end ProtoAtlas
