/-
# Visible files are those reached by imports

A file sees itself and all files that a chain of imports leads to
(`Workspace.mem_visibleUris`).  The search keeps a stack of files still to visit.
Nothing is lost on the way because every import of a visited file is visited or on
the stack (`Workspace.Pending`), and the search ends with an empty stack because each import
statement puts at most one file on it, once (`Workspace.workLeft`).
-/

import Mathlib.Logic.Relation
import ProtoAtlas.Proofs.Workspace.Answer

namespace ProtoAtlas
namespace Workspace

open Query Session

/-- Whether a file is loaded. -/
def IsLoaded (w : Workspace) (uri : Text) : Prop := (w.file? uri).isSome

/-- A loaded file imports another one: an import path of the first means the second. -/
def Imports (w : Workspace) (importer target : Text) : Prop :=
  ∃ r, w.file? importer = some r ∧
    ∃ path ∈ r.imports, w.findImport? importer (Path.normalize path) = some target

variable {w : Workspace}

theorem isLoaded_of_mem {r : FileRecord} (h : r ∈ w.files) : w.IsLoaded r.uri := by
  rw [IsLoaded, file?, List.find?_isSome]
  exact ⟨r, h, decide_eq_true rfl⟩

theorem isLoaded_of_mem_diskFiles {file : Text × Text} (h : file ∈ w.diskFiles) :
    w.IsLoaded file.1 := by
  obtain ⟨r, hr, rfl⟩ := List.mem_map.1 h
  exact isLoaded_of_mem (List.mem_filter.1 hr).1

/-- The four ways to find an import, each tried where those before it found nothing. -/
theorem findImport?_eq_or (w : Workspace) (importer path : Text) :
    w.findImport? importer path =
      ((w.files.find? (·.logicalPath = some path)).map (·.uri)).or
        (((importCandidates w.settings importer path).findSome?
            fun place => (w.diskFiles.find? (·.2 = place)).map (·.1)).or
          (((w.diskFiles.find? fun file => Path.endsWith file.2 path).map (·.1)).or
            ((w.diskFiles.find? fun file => Path.base file.2 = Path.base path).map (·.1)))) := by
  simp only [findImport?, Option.orElse_eq_orElse, Option.orElse_eq_or]

/-- An import means a loaded file, or none. -/
theorem isLoaded_of_findImport? {importer path target : Text}
    (h : w.findImport? importer path = some target) : w.IsLoaded target := by
  have onDisk : ∀ {p : Text × Text → Bool},
      (w.diskFiles.find? p).map (·.1) = some target → w.IsLoaded target := by
    intro p found
    obtain ⟨file, hfile, rfl⟩ := Option.map_eq_some_iff.1 found
    exact isLoaded_of_mem_diskFiles (List.mem_of_find?_eq_some hfile)
  rw [findImport?_eq_or, Option.or_eq_some_iff, Option.or_eq_some_iff, Option.or_eq_some_iff] at h
  rcases h with logical | ⟨-, place | ⟨-, ending | ⟨-, base⟩⟩⟩
  · obtain ⟨r, hr, rfl⟩ := Option.map_eq_some_iff.1 logical
    exact isLoaded_of_mem (List.mem_of_find?_eq_some hr)
  · obtain ⟨place, -, found⟩ := List.exists_of_findSome?_eq_some place
    exact onDisk found
  · exact onDisk ending
  · exact onDisk base

theorem Imports.isLoaded {importer target : Text} (h : w.Imports importer target) :
    w.IsLoaded target := by
  obtain ⟨r, -, path, -, found⟩ := h
  exact isLoaded_of_findImport? found

/-! ### The files a file imports -/

theorem length_distinctBy_le {α : Type} (key : α → Text) (xs : List α) :
    (distinctBy key xs).length ≤ xs.length := by
  induction xs with
  | nil => exact Nat.le_refl 0
  | cons a rest ih =>
    rw [distinctBy, List.length_cons, List.length_cons]
    have := List.length_filter_le (key · ≠ key a) (distinctBy key rest)
    omega

theorem answer_importsOf {uri : Text} {r : FileRecord} (h : w.file? uri = some r) :
    (importsOf uri).answer w =
      r.imports.map fun path => (path, w.findImport? uri (Path.normalize path)) := by
  have each : ∀ path, Looks (do return (path, ← resolveImport uri path)) := fun path =>
    (Looks.resolveImport uri path).bind fun _ => .pure _
  have run : (importsOf uri).answer w =
      (r.imports.mapM fun path => do return (path, ← resolveImport uri path)).answer w := by
    rw [importsOf, answer_current_bind, h]
  rw [run, answer_mapM fun path _ => each path]
  refine List.map_congr_left fun path _ => ?_
  rw [answer_bind (.resolveImport uri path) fun _ => .pure _, answer_resolveImport,
    answer_pure]

theorem answer_importedUris {uri : Text} {r : FileRecord} (h : w.file? uri = some r) :
    (importedUris uri).answer w =
      distinctBy id (r.imports.filterMap fun path => w.findImport? uri (Path.normalize path)) := by
  rw [importedUris, answer_bind (looks_importsOf uri) fun _ => .pure _, answer_pure,
    answer_importsOf h, List.filterMap_map]
  rfl

theorem mem_answer_importedUris {uri target : Text} {r : FileRecord} (h : w.file? uri = some r) :
    target ∈ (importedUris uri).answer w ↔ w.Imports uri target := by
  have kept := mem_map_distinctBy id
    (r.imports.filterMap fun path => w.findImport? uri (Path.normalize path)) target
  rw [List.map_id, List.map_id] at kept
  rw [answer_importedUris h, kept, List.mem_filterMap]
  constructor
  · rintro ⟨path, hpath, found⟩
    exact ⟨r, h, path, hpath, found⟩
  · rintro ⟨r', h', path, hpath, found⟩
    rw [h, Option.some.injEq] at h'
    subst h'
    exact ⟨path, hpath, found⟩

theorem length_answer_importedUris_le {uri : Text} {r : FileRecord} (h : w.file? uri = some r) :
    ((importedUris uri).answer w).length ≤ r.imports.length := by
  rw [answer_importedUris h]
  exact Nat.le_trans (length_distinctBy_le id _) (List.length_filterMap_le _ _)

/-! ### The search -/

/-- A file that is visited already or not loaded is passed over. -/
theorem answer_visit_skip {steps : Nat} {visited stack : List Text} {uri : Text}
    (h : uri ∈ visited ∨ ¬ w.IsLoaded uri) :
    (visit (steps + 1) visited (uri :: stack)).answer w = (visit steps visited stack).answer w := by
  have skipped : (visited.contains uri || (w.file? uri).isNone) = true := by
    rcases h with seen | absent
    · simp [seen]
    · simpa [IsLoaded] using Or.inr absent
  rw [visit, answer_current_bind, answer_ite, if_pos skipped]

/-- Another file is visited, and its imports are next. -/
theorem answer_visit_enter {steps : Nat} {visited stack : List Text} {uri : Text}
    (new : uri ∉ visited) (loaded : w.IsLoaded uri) :
    (visit (steps + 1) visited (uri :: stack)).answer w =
      (visit steps (visited ++ [uri]) ((importedUris uri).answer w ++ stack)).answer w := by
  have entered : (visited.contains uri || (w.file? uri).isNone) = false := by
    rw [IsLoaded] at loaded
    simp [new, loaded]
  rw [visit, answer_current_bind, answer_ite, entered, if_neg Bool.false_ne_true,
    answer_bind (looks_importedUris uri) fun _ => looks_visit _ _ _]

/-- Every import of a visited file is visited or waits on the stack. -/
def Pending (w : Workspace) (visited stack : List Text) : Prop :=
  ∀ u ∈ visited, ∀ v, w.Imports u v → v ∈ visited ∨ v ∈ stack

/-- The import statements of the files that are not visited. -/
def importsLeft (files : List FileRecord) (visited : List Text) : List Text :=
  (files.filter (·.uri ∉ visited)).flatMap (·.imports)

/-- How many files the stack can still hand out: those on it, and one for every import
statement of a file not yet visited. -/
def workLeft (w : Workspace) (visited stack : List Text) : Nat :=
  stack.length + (importsLeft w.files visited).length

theorem length_importsLeft_cons (f : FileRecord) (rest : List FileRecord) (visited : List Text) :
    (importsLeft (f :: rest) visited).length =
      (if f.uri ∈ visited then 0 else f.imports.length) + (importsLeft rest visited).length := by
  unfold importsLeft
  by_cases h : f.uri ∈ visited
  · simp [h]
  · simp [h]

/-- More visited files leave fewer import statements. -/
theorem length_importsLeft_append_le (files : List FileRecord) (visited more : List Text) :
    (importsLeft files (visited ++ more)).length ≤ (importsLeft files visited).length := by
  induction files with
  | nil => exact Nat.le_refl 0
  | cons f rest ih =>
    rw [length_importsLeft_cons, length_importsLeft_cons]
    by_cases h : f.uri ∈ visited
    · rw [if_pos h, if_pos (List.mem_append_left _ h)]
      omega
    · rw [if_neg h]
      split
      · omega
      · omega

/-- Visiting a file uses its import statements up. -/
theorem length_importsLeft_visit {files : List FileRecord} {visited : List Text} {r : FileRecord}
    (h : r ∈ files) (new : r.uri ∉ visited) :
    (importsLeft files (visited ++ [r.uri])).length + r.imports.length ≤
      (importsLeft files visited).length := by
  induction files with
  | nil => cases h
  | cons f rest ih =>
    rw [length_importsLeft_cons, length_importsLeft_cons]
    rcases List.mem_cons.1 h with rfl | later
    · rw [if_pos (by simp), if_neg new]
      have := length_importsLeft_append_le rest visited [r.uri]
      omega
    · have := ih later
      by_cases seen : f.uri ∈ visited
      · rw [if_pos seen, if_pos (List.mem_append_left _ seen)]
        omega
      · rw [if_neg seen]
        split
        · omega
        · omega

theorem workLeft_skip (visited stack : List Text) (uri : Text) :
    w.workLeft visited (uri :: stack) = w.workLeft visited stack + 1 := by
  rw [workLeft, workLeft, List.length_cons]
  omega

/-- Visiting a file leaves less work than there was. -/
theorem workLeft_enter {visited : List Text} (stack : List Text) {uri : Text} (new : uri ∉ visited)
    (loaded : w.IsLoaded uri) :
    w.workLeft (visited ++ [uri]) ((importedUris uri).answer w ++ stack) + 1 ≤
      w.workLeft visited (uri :: stack) := by
  obtain ⟨r, found⟩ := Option.isSome_iff_exists.1 loaded
  have its : r.uri = uri := by simpa using List.find?_some found
  subst its
  have pushed := length_answer_importedUris_le found
  have used := length_importsLeft_visit (List.mem_of_find?_eq_some found) new
  rw [workLeft, workLeft, List.length_append, List.length_cons]
  omega

/-- **The search loses nothing.**  With enough steps all that is visited or on the stack,
if it is loaded, is among the files found, and these are closed under imports. -/
theorem visit_closed {steps : Nat} {visited stack : List Text}
    (enough : w.workLeft visited stack ≤ steps) (pending : w.Pending visited stack) :
    (∀ u ∈ visited, u ∈ (visit steps visited stack).answer w) ∧
    (∀ u ∈ stack, w.IsLoaded u → u ∈ (visit steps visited stack).answer w) ∧
    ∀ u ∈ (visit steps visited stack).answer w, ∀ v, w.Imports u v →
      v ∈ (visit steps visited stack).answer w := by
  -- With an empty stack the search is over, whatever steps are left.
  have finished : ∀ {visited : List Text}, w.Pending visited [] →
      ∀ u ∈ visited, ∀ v, w.Imports u v → v ∈ visited := by
    intro visited pending u hu v imports
    exact (pending u hu v imports).resolve_right List.not_mem_nil
  induction steps generalizing visited stack with
  | zero =>
    have none : stack = [] := List.eq_nil_of_length_eq_zero (by rw [workLeft] at enough; omega)
    subst none
    exact ⟨fun u hu => hu, fun u hu => (nomatch hu), finished pending⟩
  | succ steps ih =>
    cases stack with
    | nil => exact ⟨fun u hu => hu, fun u hu => (nomatch hu), finished pending⟩
    | cons uri stack =>
      by_cases skip : uri ∈ visited ∨ ¬ w.IsLoaded uri
      · have pending' : w.Pending visited stack := by
          intro u hu v imports
          rcases pending u hu v imports with seen | waits
          · exact Or.inl seen
          · rcases List.mem_cons.1 waits with rfl | waits
            · exact Or.inl (skip.resolve_right fun absent => absent imports.isLoaded)
            · exact Or.inr waits
        rw [workLeft_skip] at enough
        obtain ⟨kept, found, closed⟩ := ih (by omega) pending'
        rw [answer_visit_skip skip]
        refine ⟨kept, fun u hu loaded => ?_, closed⟩
        rcases List.mem_cons.1 hu with rfl | hu
        · exact kept u (skip.resolve_right fun absent => absent loaded)
        · exact found u hu loaded
      · obtain ⟨new, loaded⟩ : uri ∉ visited ∧ w.IsLoaded uri := by
          rwa [not_or, Classical.not_not] at skip
        obtain ⟨r, record⟩ := Option.isSome_iff_exists.1 loaded
        have pending' : w.Pending (visited ++ [uri]) ((importedUris uri).answer w ++ stack) := by
          intro u hu v imports
          rcases List.mem_append.1 hu with hu | hu
          · rcases pending u hu v imports with seen | waits
            · exact Or.inl (List.mem_append_left _ seen)
            · rcases List.mem_cons.1 waits with rfl | waits
              · exact Or.inl (by simp)
              · exact Or.inr (List.mem_append_right _ waits)
          · rw [List.mem_singleton.1 hu] at imports
            exact Or.inr (List.mem_append_left _ ((mem_answer_importedUris record).2 imports))
        have less := workLeft_enter stack new loaded
        obtain ⟨kept, found, closed⟩ := ih (by omega) pending'
        rw [answer_visit_enter new loaded]
        refine ⟨fun u hu => kept u (List.mem_append_left _ hu), fun u hu loaded' => ?_, closed⟩
        rcases List.mem_cons.1 hu with rfl | hu
        · exact kept u (by simp)
        · exact found u (List.mem_append_right _ hu) loaded'

/-- **The search finds nothing else**: what it finds was visited before, or a chain of
imports leads to it from the stack. -/
theorem visit_sound {steps : Nat} {visited stack : List Text} :
    ∀ v ∈ (visit steps visited stack).answer w, v ∈ visited ∨
      ∃ u ∈ stack, w.IsLoaded u ∧ Relation.ReflTransGen w.Imports u v := by
  induction steps generalizing visited stack with
  | zero => exact fun v hv => Or.inl hv
  | succ steps ih =>
    cases stack with
    | nil => exact fun v hv => Or.inl hv
    | cons uri stack =>
      intro v hv
      by_cases skip : uri ∈ visited ∨ ¬ w.IsLoaded uri
      · rw [answer_visit_skip skip] at hv
        rcases ih v hv with seen | ⟨u, hu, way⟩
        · exact Or.inl seen
        · exact Or.inr ⟨u, List.mem_cons_of_mem _ hu, way⟩
      · obtain ⟨new, loaded⟩ : uri ∉ visited ∧ w.IsLoaded uri := by
          rwa [not_or, Classical.not_not] at skip
        obtain ⟨r, record⟩ := Option.isSome_iff_exists.1 loaded
        rw [answer_visit_enter new loaded] at hv
        rcases ih v hv with seen | ⟨u, hu, loaded', way⟩
        · rcases List.mem_append.1 seen with seen | own
          · exact Or.inl seen
          · rw [List.mem_singleton.1 own]
            exact Or.inr ⟨uri, List.mem_cons_self, loaded, Relation.ReflTransGen.refl⟩
        · rcases List.mem_append.1 hu with hu | hu
          · have step := (mem_answer_importedUris record).1 hu
            exact Or.inr ⟨uri, List.mem_cons_self, loaded, way.head step⟩
          · exact Or.inr ⟨u, List.mem_cons_of_mem _ hu, loaded', way⟩

/-- **A file sees what its imports lead to**, and itself. -/
theorem mem_visibleUris {uri v : Text} : v ∈ (visibleUris uri).answer w ↔
    w.IsLoaded uri ∧ Relation.ReflTransGen w.Imports uri v := by
  have search : (visibleUris uri).answer w = (visit (visitBound w) [] [uri]).answer w := by
    rw [visibleUris, answer_current_bind]
  have enough : w.workLeft [] [uri] ≤ visitBound w := by
    have all : importsLeft w.files [] = w.files.flatMap (·.imports) := by
      rw [importsLeft, List.filter_eq_self.2 fun r _ => by simp]
    rw [workLeft, visitBound, all]
    exact Nat.le_refl _
  obtain ⟨-, found, closed⟩ := visit_closed enough fun _ hu => absurd hu List.not_mem_nil
  rw [search]
  constructor
  · intro hv
    rcases visit_sound v hv with none | ⟨u, hu, loaded, way⟩
    · cases none
    · rw [List.mem_singleton.1 hu] at loaded way
      exact ⟨loaded, way⟩
  · rintro ⟨loaded, way⟩
    induction way with
    | refl => exact found uri List.mem_cons_self loaded
    | tail _ step ih => exact closed _ ih _ step

end Workspace
end ProtoAtlas
