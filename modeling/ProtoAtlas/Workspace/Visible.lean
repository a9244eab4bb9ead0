/-
# Visible files

The files a file imports, and all files it sees: itself, and what its imports see,
depth first and in the order of the import statements.
-/

import ProtoAtlas.Workspace.Session

namespace ProtoAtlas

/-- The elements that have a key no earlier element has. -/
def distinctBy {α : Type} (key : α → Text) : List α → List α
  | [] => []
  | a :: rest => a :: (distinctBy key rest).filter (key · ≠ key a)

/-- No two elements that are kept have one key. -/
theorem nodup_map_distinctBy {α : Type} (key : α → Text) (xs : List α) :
    ((distinctBy key xs).map key).Nodup := by
  induction xs with
  | nil => simp [distinctBy]
  | cons a rest ih =>
    rw [distinctBy, List.map_cons, List.nodup_cons]
    refine ⟨by simp, ?_⟩
    exact ih.sublist (List.Sublist.map key List.filter_sublist)

/-- Every key of the list is the key of an element that is kept. -/
theorem mem_map_distinctBy {α : Type} (key : α → Text) (xs : List α) (k : Text) :
    k ∈ (distinctBy key xs).map key ↔ k ∈ xs.map key := by
  induction xs with
  | nil => simp [distinctBy]
  | cons a rest ih =>
    rw [distinctBy, List.map_cons, List.map_cons, List.mem_cons, List.mem_cons, ← ih]
    by_cases h : k = key a
    · simp [h]
    · simp only [h, false_or, List.mem_map, List.mem_filter, decide_not, Bool.not_eq_eq_eq_not,
        Bool.not_true, decide_eq_false_iff_not]
      constructor
      · rintro ⟨x, ⟨hx, _⟩, rfl⟩
        exact ⟨x, hx, rfl⟩
      · rintro ⟨x, hx, rfl⟩
        exact ⟨x, ⟨hx, h⟩, rfl⟩

namespace Session

/-- The imports of a file with the files they mean. -/
def importsOf (uri : Text) : Query (List (Text × Option Text)) := do
  match (← current).file? uri with
  | none => return []
  | some r => r.imports.mapM fun path => return (path, ← resolveImport uri path)

/-- The files a file imports, each once. -/
def importedUris (uri : Text) : Query (List Text) := do
  return distinctBy id ((← importsOf uri).filterMap (·.2))

/-- Visits the files of a stack and what they import, after those already visited.
Every step takes one file off the stack. -/
def visit : Nat → List Text → List Text → Query (List Text)
  | 0, visited, _ => return visited
  | _ + 1, visited, [] => return visited
  | steps + 1, visited, uri :: stack => do
    if visited.contains uri || ((← current).file? uri).isNone then visit steps visited stack
    else
      let imported ← importedUris uri
      visit steps (visited ++ [uri]) (imported ++ stack)

/-- The number of files a visit can take off its stack: the first one, and one for
every import statement. -/
def visitBound (w : Workspace) : Nat :=
  1 + (w.files.flatMap fun r => r.imports).length

/-- The files a file sees, in the order a search meets them. -/
def visibleUris (uri : Text) : Query (List Text) := do
  visit (visitBound (← current)) [] [uri]

/-- The symbols of the files a file sees. -/
def accessibleSymbols (uri : Text) : Query (List Symbol) := do
  let uris ← visibleUris uri
  let w ← current
  return uris.flatMap w.symbolsIn

end Session
end ProtoAtlas
