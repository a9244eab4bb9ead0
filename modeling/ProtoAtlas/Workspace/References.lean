/-
# Finding references

The places that refer to a type.  A name with a dot asks for the type with that full
name, any other name for all types with that simple name.  A place counts if its type
resolves to one asked for, or resolves to none but is written like the name.
-/

import ProtoAtlas.Workspace.Types

namespace ProtoAtlas

/-- The full names a name asks for. -/
def SymbolIndex.targets (ix : SymbolIndex) (name : Text) : List Text :=
  if name.contains nameDot then [name]
  else ((ix.named name).filter (·.isType)).map (·.fullName) ++ [name]

/-- Whether a type is written like a name: one is the other or ends with it. -/
def writtenLike (written name : Text) : Bool :=
  written = name || endsWithName written name || endsWithName name written

namespace Session

/-- The location of a reference in a file if it counts for a name. -/
def matchSite (targets : List Text) (name uri : Text) (site : TypeSite) :
    Query (Option Location) := do
  if scalarTypes.contains site.type.text then return none
  let counts :=
    match ← resolveType site.type.text uri (some site.scope) with
    | some s => targets.contains s.fullName
    | none => writtenLike (Workspace.absoluteName site.type.text) name
  return if counts then some ⟨uri, site.type.span⟩ else none

/-- The locations that refer to a type, in the files that are no stubs. -/
def findReferences (typeName : Text) : Query (List Location) := do
  let name := Workspace.absoluteName typeName
  if name.isEmpty then return []
  let w ← current
  let targets := w.index.targets name
  let files := w.files.filter fun r => !Uri.isBuiltin r.uri
  let found ← files.mapM fun r => r.tree.typeSites.filterMapM (matchSite targets name r.uri)
  return found.flatten

end Session
end ProtoAtlas
