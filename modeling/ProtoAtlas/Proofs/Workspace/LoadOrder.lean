/-
# What an import means does not depend on the order of loading

The files of a workspace stand in the order they came in, and each search for an import takes
the first file that fits.  If no two files on disk share a base name and no two files share a
logical path (`Workspace.Unambiguous`), then at most one file fits in each search, and where a
file stands among the others makes no difference.

One fact carries all searches among the files on disk: files that fit the same place, the same
end of a path or the same base name have the same base name (`Path.base_eq_of_endsWith`).
-/

import ProtoAtlas.Proofs.Workspace.Visibility

namespace ProtoAtlas

/-- A search with at most one hit finds the same in two lists with the same elements. -/
theorem find?_eq_of_unique {α : Type} {p : α → Bool} {xs ys : List α}
    (same : ∀ a, a ∈ xs ↔ a ∈ ys)
    (unique : ∀ a ∈ xs, ∀ b ∈ xs, p a = true → p b = true → a = b) :
    xs.find? p = ys.find? p := by
  cases found : xs.find? p with
  | none =>
    symm
    rw [List.find?_eq_none] at found ⊢
    exact fun a ha => found a ((same a).2 ha)
  | some a =>
    have mem := List.mem_of_find?_eq_some found
    have fits := List.find?_some found
    have some : (ys.find? p).isSome = true := List.find?_isSome.2 ⟨a, (same a).1 mem, fits⟩
    obtain ⟨b, found'⟩ := Option.isSome_iff_exists.1 some
    have mem' := (same b).2 (List.mem_of_find?_eq_some found')
    rw [found', unique a mem b mem' fits (List.find?_some found')]

namespace Path

/-- What stands after the last slash stands after any slash before it. -/
theorem base_append_slash (front tail : Text) : base (front ++ slash :: tail) = base tail := by
  have stop : List.takeWhile (fun c => decide (c ≠ slash)) (slash :: front.reverse) = [] := by simp
  rw [base, base, List.reverse_append, List.reverse_cons, List.append_assoc, List.singleton_append,
    List.takeWhile_append, stop, List.append_nil]
  split
  · next all => rw [(List.takeWhile_prefix _).eq_of_length all]
  · rfl

/-- **A path has the base name of every path that it ends with.** -/
theorem base_eq_of_endsWith {path tail : Text} (h : endsWith path tail = true) :
    base path = base tail := by
  rw [endsWith, Bool.or_eq_true, decide_eq_true_eq, List.isSuffixOf_iff_suffix] at h
  rcases h with rfl | ⟨front, rfl⟩
  · rfl
  · exact base_append_slash front tail

end Path

/-- A record is told by its URI, its tree and its logical path. -/
theorem FileRecord.eq_of_tree {r r' : FileRecord} (uri : r.uri = r'.uri) (tree : r.tree = r'.tree)
    (logical : r.logicalPath = r'.logicalPath) : r = r' := by
  obtain ⟨u, t, l, symbols, eq⟩ := r
  obtain ⟨u', t', l', symbols', eq'⟩ := r'
  cases uri
  cases tree
  cases logical
  cases eq
  cases eq'
  rfl

namespace Workspace

/-- Two workspaces have the same files, in whatever order: under each URI the same tree and
the same logical path, or no file at all. -/
def SameFiles (w w' : Workspace) : Prop :=
  ∀ uri, (w.file? uri).map (fun r => (r.tree, r.logicalPath)) =
    (w'.file? uri).map fun r => (r.tree, r.logicalPath)

/-- No two files on disk have paths with one base name, and no two files have one logical
path. -/
structure Unambiguous (w : Workspace) : Prop where
  bases : ∀ r ∈ w.files, ∀ r' ∈ w.files, Uri.isBuiltin r.uri = false →
    Uri.isBuiltin r'.uri = false →
    Path.base (Uri.toPath r.uri) = Path.base (Uri.toPath r'.uri) → r.uri = r'.uri
  logical : ∀ r ∈ w.files, ∀ r' ∈ w.files, r.logicalPath ≠ none →
    r.logicalPath = r'.logicalPath → r.uri = r'.uri

variable {w w' : Workspace}

theorem SameFiles.file? (h : w.SameFiles w') (uri : Text) : w.file? uri = w'.file? uri := by
  have content := h uri
  cases found : w.file? uri with
  | none =>
    rw [found] at content
    exact (Option.map_eq_none_iff.1 content.symm).symm
  | some r =>
    rw [found] at content
    obtain ⟨r', found', same⟩ := Option.map_eq_some_iff.1 content.symm
    obtain ⟨tree, logical⟩ := Prod.mk.inj same
    have its : r.uri = uri := by simpa using List.find?_some found
    have its' : r'.uri = uri := by simpa using List.find?_some found'
    rw [found', FileRecord.eq_of_tree (its.trans its'.symm) tree.symm logical.symm]

theorem Indexed.mem_files_iff (h : w.Indexed) {r : FileRecord} :
    r ∈ w.files ↔ w.file? r.uri = some r := by
  refine ⟨fun mem => ?_, List.mem_of_find?_eq_some⟩
  obtain ⟨r', found⟩ := Option.isSome_iff_exists.1 (isLoaded_of_mem mem)
  have its : r'.uri = r.uri := by simpa using List.find?_some found
  rw [found, List.inj_on_of_nodup_map h.distinct (List.mem_of_find?_eq_some found) mem its]

/-- Loaded under the same URIs, the files are the same. -/
theorem SameFiles.mem_files (same : w.SameFiles w') (h : w.Indexed) (h' : w'.Indexed)
    (r : FileRecord) : r ∈ w.files ↔ r ∈ w'.files := by
  rw [h.mem_files_iff, h'.mem_files_iff, same.file?]

theorem SameFiles.mem_diskFiles (same : w.SameFiles w') (h : w.Indexed) (h' : w'.Indexed)
    (file : Text × Text) : file ∈ w.diskFiles ↔ file ∈ w'.diskFiles := by
  simp only [diskFiles, List.mem_map, List.mem_filter, same.mem_files h h']

theorem Unambiguous.eq_of_base (h : w.Unambiguous) {file file' : Text × Text}
    (mem : file ∈ w.diskFiles) (mem' : file' ∈ w.diskFiles)
    (base : Path.base file.2 = Path.base file'.2) : file = file' := by
  obtain ⟨r, hr, rfl⟩ := List.mem_map.1 mem
  obtain ⟨r', hr', rfl⟩ := List.mem_map.1 mem'
  obtain ⟨hr, onDisk⟩ := List.mem_filter.1 hr
  obtain ⟨hr', onDisk'⟩ := List.mem_filter.1 hr'
  have uri := h.bases r hr r' hr' (by simpa using onDisk) (by simpa using onDisk') base
  rw [uri]

section Searches

variable (indexed : w.Indexed) (indexed' : w'.Indexed) (same : w.SameFiles w')
  (clear : w.Unambiguous)
include indexed indexed' same clear

/-- The file with a logical path is the same, in whatever order the files stand. -/
theorem find?_logicalPath_eq (path : Text) :
    w.files.find? (·.logicalPath = some path) = w'.files.find? (·.logicalPath = some path) := by
  refine find?_eq_of_unique (same.mem_files indexed indexed') fun r hr r' hr' named named' => ?_
  rw [decide_eq_true_eq] at named named'
  have uri := clear.logical r hr r' hr' (by simp [named]) (named.trans named'.symm)
  exact List.inj_on_of_nodup_map indexed.distinct hr hr' uri

/-- A search among the files on disk for what settles the base name finds the same, in whatever
order the files stand. -/
theorem find?_diskFiles_eq_of_base {p : Text × Text → Bool} {name : Text}
    (settles : ∀ file, p file = true → Path.base file.2 = name) :
    w.diskFiles.find? p = w'.diskFiles.find? p := by
  refine find?_eq_of_unique (same.mem_diskFiles indexed indexed') fun file hfile file' hfile' fits
    fits' => ?_
  exact clear.eq_of_base hfile hfile' ((settles file fits).trans (settles file' fits').symm)

/-- **An import means the same file, in whatever order the files stand.**  Each of the searches
has at most one hit. -/
theorem findImport?_eq_of_sameFiles (settings : w.settings = w'.settings) (importer path : Text) :
    w.findImport? importer path = w'.findImport? importer path := by
  have atPlace : ∀ place, w.diskFiles.find? (·.2 = place) = w'.diskFiles.find? (·.2 = place) :=
    fun place => find?_diskFiles_eq_of_base indexed indexed' same clear fun file stands =>
      congrArg Path.base (of_decide_eq_true stands)
  have byEnd := find?_diskFiles_eq_of_base indexed indexed' same clear
    (p := fun file => Path.endsWith file.2 path) fun _ => Path.base_eq_of_endsWith
  have byBase := find?_diskFiles_eq_of_base indexed indexed' same clear
    (p := fun file => Path.base file.2 = Path.base path) fun _ => of_decide_eq_true
  rw [findImport?_eq_or, findImport?_eq_or,
    find?_logicalPath_eq indexed indexed' same clear path, byEnd, byBase, settings]
  simp only [atPlace]

end Searches
end Workspace

/-- **What an import means does not depend on the order of loading.**  Take two reachable
sessions with the same settings and the same files, loaded in any order and whatever was
loaded, removed, configured and asked before.  If no two files on disk have paths with one base
name and no two files have one logical path, every import means the same in both. -/
theorem import_meaning_ignores_load_order (s s' : Session) (h : s.Reachable) (h' : s'.Reachable)
    (settings : s.workspace.settings = s'.workspace.settings)
    (same : s.workspace.SameFiles s'.workspace) (clear : s.workspace.Unambiguous)
    (importer path : Text) :
    ((Session.resolveImport importer path).run s).1 =
      ((Session.resolveImport importer path).run s').1 := by
  rw [Session.value_resolveImport importer path h.faithful,
    Session.value_resolveImport importer path h'.faithful]
  exact Workspace.findImport?_eq_of_sameFiles h.indexed h'.indexed same clear settings importer _

namespace LoadOrder

/-- A file on disk with an import. -/
def importing : FileRecord :=
  FileRecord.ofTree "file:///a/x.proto" (SchemaFile.parse "x" "import \"y.proto\" ;") none

/-- The file that it imports, in another directory. -/
def imported : FileRecord :=
  FileRecord.ofTree "file:///b/y.proto" (SchemaFile.parse "y" "message M \x7b \x7d") none

/-- The importing file is loaded first, and the import is looked up before the other file is
there. -/
def forward : Session :=
  ((Session.resolveImport "file:///a/x.proto" "y.proto").run
    (Session.empty.update importing)).2.update imported

/-- The importing file is loaded last, after another file of its base name was removed. -/
def backward : Session :=
  (((Session.empty.update imported).update
    (FileRecord.ofTree "file:///c/x.proto" (SchemaFile.parse "x" "") none)).remove
      "file:///c/x.proto").update importing

theorem files_forward : forward.workspace.files = [importing, imported] := by
  rw [forward, Session.update, Session.changed, Session.keeps_resolveImport]
  rfl

theorem files_backward : backward.workspace.files = [imported, importing] := rfl

/-- Whichever file is loaded first, the import is found by the base name. -/
theorem import_is_found_in_any_order : forward.Reachable ∧ backward.Reachable ∧
    forward.workspace.SameFiles backward.workspace ∧ forward.workspace.Unambiguous ∧
    ((Session.resolveImport "file:///a/x.proto" "y.proto").run backward).1 =
      some ("file:///b/y.proto" : Text) ∧
    ((Session.resolveImport "file:///a/x.proto" "y.proto").run forward).1 =
      some ("file:///b/y.proto" : Text) := by
  have reachable : forward.Reachable :=
    ((Session.Reachable.new.update _ _ _ none).ask (.resolveImport _ _)).update _ _ _ none
  have reachable' : backward.Reachable :=
    (((Session.Reachable.new.update _ _ _ none).update _ _ _ none).remove _).update _ _ _ none
  have different : importing.uri ≠ imported.uri := by decide
  have same : forward.workspace.SameFiles backward.workspace := by
    intro uri
    rw [Workspace.file?, Workspace.file?, files_forward, files_backward]
    by_cases first : importing.uri = uri
    · have other : imported.uri ≠ uri := fun second => different (first.trans second.symm)
      simp [first, other]
    · by_cases second : imported.uri = uri
      · simp [first, second]
      · simp [first, second]
  have clear : forward.workspace.Unambiguous := by
    constructor
    · rw [files_forward]
      decide +kernel
    · rw [files_forward]
      decide +kernel
  have found : ((Session.resolveImport "file:///a/x.proto" "y.proto").run backward).1 =
      some ("file:///b/y.proto" : Text) := by
    rw [Session.value_resolveImport _ _ reachable'.faithful]
    decide +kernel
  have updated : ∀ (s : Session) (r : FileRecord),
      (s.update r).workspace.settings = s.workspace.settings := fun _ _ => rfl
  have removed : ∀ (s : Session) (uri : Text),
      (s.remove uri).workspace.settings = s.workspace.settings := by
    intro s uri
    unfold Session.remove
    split <;> rfl
  have settings : forward.workspace.settings = backward.workspace.settings := by
    rw [forward, backward, updated, Session.keeps_resolveImport, updated, updated, removed, updated,
      updated]
  refine ⟨reachable, reachable', same, clear, found, ?_⟩
  rw [import_meaning_ignores_load_order forward backward reachable reachable' settings same clear]
  exact found

end LoadOrder
end ProtoAtlas
