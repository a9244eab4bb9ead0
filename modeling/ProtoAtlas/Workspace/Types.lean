/-
# Resolving types

A type reference is resolved from a scope.  A name that starts with a dot is a full
name.  Any other name is tried inside the scope, then inside each scope around it,
then as a full name.  If none of these is a type, a type whose full name ends with
the name may stand in: one of the same file, else of a visible file, else of a stub.
-/

import ProtoAtlas.Symbol.Reference
import ProtoAtlas.Workspace.Visible

namespace ProtoAtlas

/-- The dot between the parts of a name. -/
def nameDot : CodePoint := CodePoint.ofChar '.'

/-- A scope and the scopes around it, the innermost first; the empty scope is none. -/
def enclosingScopes (scope : Text) : List Text :=
  if scope.isEmpty then []
  else
    let parts := scope.splitOn nameDot
    (List.range parts.length).reverse.map fun n => Text.join [nameDot] (parts.take (n + 1))

/-- The last part of a name. -/
def simpleName (name : Text) : Text :=
  (name.reverse.takeWhile (· ≠ nameDot)).reverse

/-- Whether a name ends with another at the boundary of a part. -/
def endsWithName (name tail : Text) : Bool :=
  (nameDot :: tail).isSuffixOf name

namespace SymbolIndex

/-- The type a name means by the scope rule. -/
def typeInScope? (ix : SymbolIndex) (scope name : Text) : Option Symbol :=
  ((enclosingScopes scope).findSome? fun outer => ix.type? (outer ++ nameDot :: name)) <|>
    ix.type? name

/-- The types whose full name is a name or ends with it. -/
def typesEndingIn (ix : SymbolIndex) (name : Text) : List Symbol :=
  (ix.named (simpleName name)).filter fun s =>
    s.isType && (s.fullName = name || endsWithName s.fullName name)

end SymbolIndex

namespace Session

/-- The type that stands in for a name no scope has. -/
def standIn (name uri : Text) : Query (Option Symbol) := do
  let candidates := (← current).index.typesEndingIn name
  if candidates.isEmpty then return none
  match candidates.find? (·.uri = uri) with
  | some s => return some s
  | none =>
    let visible ← visibleUris uri
    return candidates.find? (fun s => visible.contains s.uri) <|>
      candidates.find? fun s => Uri.isBuiltin s.uri

/-- The type a name means in a file.  Without a scope it is resolved from the
package of the file.  Scalar types are no symbols. -/
def resolveType (name uri : Text) (scope : Option Text) : Query (Option Symbol) := do
  let w ← current
  if name.isEmpty || scalarTypes.contains name then return none
  else if name.head? = some nameDot then return w.index.type? name.tail
  else
    match w.index.typeInScope? (scope.getD (w.packageOf uri)) name with
    | some s => return some s
    | none =>
      let found ← standIn name uri
      if found.isNone then note (.typeUnresolved name uri)
      return found

/-- The types to offer in a file, one for each full name: visible ones declared in
the scope or one around it, then all visible ones, then all others. -/
def completions (uri : Text) (scope : Option Text) : Query (List Symbol) := do
  let scopes := enclosingScopes (scope.getD ((← current).packageOf uri))
  let accessible := (← accessibleSymbols uri).filter (·.isType)
  let inner := accessible.filter fun s => scopes.contains (s.container.getD [])
  let all := (← current).allSymbols.filter (·.isType)
  return distinctBy (·.fullName) (inner ++ accessible ++ all)

end Session
end ProtoAtlas
