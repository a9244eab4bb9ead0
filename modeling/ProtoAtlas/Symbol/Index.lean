/-
# The symbol index

Symbols of all loaded files by name.  By simple name the index keeps every symbol
in the order the symbols were added.  By full name it keeps one, the holder: the
symbol added last.  When the file of a holder leaves, the earliest symbol left
with that full name takes over.

A simple name without symbols has no entry, and neither has a full name.
-/

import Std.Data.HashMap
import ProtoAtlas.Symbol.Basic

namespace ProtoAtlas

/-- Symbols by simple name and by full name. -/
structure SymbolIndex where
  simple : Std.HashMap Text (List Symbol)
  holders : Std.HashMap Text Symbol

namespace SymbolIndex

/-- The index without symbols. -/
def empty : SymbolIndex where
  simple := ∅
  holders := ∅

instance : Inhabited SymbolIndex := ⟨empty⟩

/-- The symbols with a simple name, the earliest first. -/
def named (ix : SymbolIndex) (name : Text) : List Symbol :=
  ix.simple.getD name []

/-- The holder of a full name. -/
def holder? (ix : SymbolIndex) (fullName : Text) : Option Symbol :=
  ix.holders[fullName]?

@[simp] theorem named_empty (name : Text) : empty.named name = [] := by
  simp [named, empty]

@[simp] theorem holder?_empty (fullName : Text) : empty.holder? fullName = none := by
  simp [holder?, empty]

/-- The first symbol with a full name among those with a simple name. -/
def heir? (ix : SymbolIndex) (name fullName : Text) : Option Symbol :=
  (ix.named name).find? (·.fullName = fullName)

/-- Adds a symbol, which becomes the holder of its full name. -/
def add (ix : SymbolIndex) (s : Symbol) : SymbolIndex where
  simple := ix.simple.alter s.name fun entry => some (entry.getD [] ++ [s])
  holders := ix.holders.insert s.fullName s

/-- A symbol is added at the end of its simple name. -/
theorem named_add (ix : SymbolIndex) (s : Symbol) (name : Text) :
    (ix.add s).named name = if s.name = name then ix.named name ++ [s] else ix.named name := by
  unfold add named
  rw [Std.HashMap.getD_alter]
  by_cases h : s.name = name
  · subst h
    simp [Std.HashMap.getD_eq_getD_getElem?]
  · simp [h]

/-- The symbol added last holds its full name. -/
theorem holder?_add (ix : SymbolIndex) (s : Symbol) (fullName : Text) :
    (ix.add s).holder? fullName =
      if s.fullName = fullName then some s else ix.holder? fullName := by
  unfold add holder?
  rw [Std.HashMap.getElem?_insert]
  by_cases h : s.fullName = fullName <;> simp [h]

/-- Adds symbols in order. -/
def addAll (ix : SymbolIndex) (symbols : List Symbol) : SymbolIndex :=
  symbols.foldl add ix

/-- Symbols are added at the end of their simple names, in order. -/
theorem named_addAll (ix : SymbolIndex) (symbols : List Symbol) (name : Text) :
    (ix.addAll symbols).named name = ix.named name ++ symbols.filter (·.name = name) := by
  induction symbols generalizing ix with
  | nil => simp [addAll]
  | cons s rest ih =>
    have step : ix.addAll (s :: rest) = (ix.add s).addAll rest := rfl
    rw [step, ih, named_add]
    by_cases h : s.name = name <;> simp [h]

/-- What is left of an entry without the symbols of a file. -/
def entryWithout (uri : Text) (entry : Option (List Symbol)) : Option (List Symbol) :=
  match (entry.getD []).filter (·.uri ≠ uri) with
  | [] => none
  | kept => some kept

/-- Drops the symbols of a file from the entry of a symbol's simple name. -/
def dropSimple (uri : Text) (ix : SymbolIndex) (s : Symbol) : SymbolIndex where
  simple := ix.simple.alter s.name (entryWithout uri)
  holders := ix.holders

/-- Passes a symbol's full name on if a file holds it. -/
def passOn (uri : Text) (ix : SymbolIndex) (s : Symbol) : SymbolIndex where
  simple := ix.simple
  holders :=
    match ix.holder? s.fullName with
    | none => ix.holders
    | some held =>
      if held.uri = uri then
        match ix.heir? s.name s.fullName with
        | none => ix.holders.erase s.fullName
        | some heir => ix.holders.insert s.fullName heir
      else ix.holders

/-- Removes the symbols of a file. -/
def removeAll (ix : SymbolIndex) (uri : Text) (symbols : List Symbol) : SymbolIndex :=
  symbols.foldl (passOn uri) (symbols.foldl (dropSimple uri) ix)

/-- The type with a full name.  A field may hold the full name of a type; the type
is then the first with that full name. -/
def type? (ix : SymbolIndex) (fullName : Text) : Option Symbol :=
  match ix.holder? fullName with
  | none => none
  | some held =>
    if held.isType then some held
    else (ix.named held.name).find? fun s => s.fullName = fullName && s.isType

end SymbolIndex
end ProtoAtlas
