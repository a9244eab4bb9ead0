/-
# The two searches for an import

While files are loaded, an import is looked for on the disk: first beside the importing
file, then in the import directories.  Once they are loaded, the workspace looks for it
among the loaded files, and there the import directories come first
(`Loading.Sound.findImport?_eq`).  Both searches go through the same places
(`importCandidates_eq`), so they differ only where the file beside the importing one is
hidden by a loaded file of an import directory.

This holds for paths that both searches read alike (`Path.ReadAlike`,
`Disk.PlainlyLoaded`); the cases of `ImportCase` have an import for each way in which they
do not.
-/

import ProtoAtlas.Proofs.Disk.Loaded
import ProtoAtlas.Proofs.Workspace.Visibility

namespace ProtoAtlas

/-! ### Two searches through the same places -/

section Search

variable {α : Type} {wide narrow : α → Bool}

/-- If a search finds something that a stricter one accepts, the stricter one finds it
too. -/
theorem find?_of_narrow (le : ∀ a, narrow a = true → wide a = true) {xs : List α} {a : α}
    (found : xs.find? wide = some a) (accepted : narrow a = true) :
    xs.find? narrow = some a := by
  induction xs with
  | nil => cases found
  | cons b rest ih =>
    by_cases hb : wide b = true
    · rw [List.find?_cons_of_pos hb, Option.some.injEq] at found
      rw [found, List.find?_cons_of_pos accepted]
    · rw [List.find?_cons_of_neg hb] at found
      rw [List.find?_cons_of_neg fun h => hb (le b h)]
      exact ih found

/-- A wide search that starts with `a` and a narrow search that ends with it find the same,
unless `a` is found first and hidden by another. -/
theorem find?_concat_eq_iff (le : ∀ a, narrow a = true → wide a = true) {xs : List α} {a b : α}
    (found : (a :: xs).find? wide = some b) (accepted : narrow b = true) :
    (xs ++ [a]).find? narrow = some b ↔ b ≠ a ∨ ∀ c, xs.find? narrow = some c → c = b := by
  have later : b ≠ a → xs.find? narrow = some b := by
    intro other
    have skipped : ¬ wide a = true := by
      intro first
      rw [List.find?_cons_of_pos first, Option.some.injEq] at found
      exact other found.symm
    rw [List.find?_cons_of_neg skipped] at found
    exact find?_of_narrow le found accepted
  rw [List.find?_append]
  cases hidden : xs.find? narrow with
  | some c =>
    rw [Option.some_or, Option.some.injEq]
    constructor
    · rintro rfl
      exact Or.inr fun _ same => (Option.some.inj same).symm
    · rintro (other | same)
      · exact Option.some.inj (hidden.symm.trans (later other))
      · exact same c rfl
  | none =>
    have here : b = a := Classical.byContradiction fun other =>
      nomatch hidden.symm.trans (later other)
    rw [Option.none_or, ← here, List.find?_cons_of_pos accepted]
    exact iff_of_true rfl (Or.inr fun _ absent => nomatch absent)

end Search

/-! ### The files at the start -/

namespace Uri

theorem isBuiltin_ofBuiltin (path : Text) : isBuiltin (ofBuiltin path) = true := by
  simp [isBuiltin, ofBuiltin]

end Uri

namespace Session

theorem logicalPath_stubRecord (stub : Stub) :
    (stubRecord stub).logicalPath = some stub.path := by
  unfold stubRecord FileRecord.ofTree
  dsimp only
  split
  · next same => exact same.symm
  · exact Uri.dropPrefix?_append _ _

/-- A file that is there before anything is loaded is a stub. -/
def OnlyStubs (s : Session) : Prop :=
  ∀ r ∈ s.workspace.files, Uri.isBuiltin r.uri = true ∧
    ∃ path, r.logicalPath = some path ∧ Stub.isKnown path = true

theorem onlyStubs_empty : Session.empty.OnlyStubs := fun _ mem => nomatch mem

theorem onlyStubs_withStubs : withStubs.OnlyStubs := by
  have registered : ∀ (stubs : List Stub) (s : Session), (∀ stub ∈ stubs, stub ∈ Stub.catalog) →
      s.OnlyStubs → (stubs.foldl (fun s stub => s.update (stubRecord stub)) s).OnlyStubs := by
    intro stubs
    induction stubs with
    | nil => exact fun s _ h => h
    | cons stub rest ih =>
      intro s known h
      refine ih _ (fun other mem => known other (List.mem_cons_of_mem _ mem)) fun r hr => ?_
      rcases Workspace.mem_of_mem_putFile hr with rfl | old
      · refine ⟨Uri.isBuiltin_ofBuiltin stub.path, stub.path, logicalPath_stubRecord stub, ?_⟩
        exact List.contains_iff_mem.2 (List.mem_map_of_mem (known stub (List.mem_cons_self ..)))
      · exact h r old
  exact registered _ _ (fun _ => id) onlyStubs_empty

theorem settings_withStubs : withStubs.workspace.settings = Settings.empty := by
  have registered : ∀ (stubs : List Stub) (s : Session),
      (stubs.foldl (fun s stub => s.update (stubRecord stub)) s).workspace.settings =
        s.workspace.settings := by
    intro stubs
    induction stubs with
    | nil => exact fun _ => rfl
    | cons stub rest ih => exact fun s => ih _
  exact registered _ _

end Session

/-! ### The loaded files -/

/-- Whether a path is that of a file on the disk that was loaded. -/
def Disk.isLoaded (d : Disk) (loaded : List Text) (path : DiskPath) : Bool :=
  d.isFile path && loaded.contains (Uri.ofPath path.text)

/-- The paths of all loaded files can be read back from their URIs. -/
def Disk.PlainlyLoaded (d : Disk) (loaded : List Text) : Prop :=
  ∀ file ∈ d.contents, Uri.ofPath file.1.text ∈ loaded → Path.Plain file.1.text

theorem Disk.all_iff_plainlyLoaded {d : Disk} {loaded : List Text} :
    (d.contents.all fun file => !loaded.contains (Uri.ofPath file.1.text) ||
      decide (Path.Plain file.1.text)) = true ↔ d.PlainlyLoaded loaded := by
  rw [List.all_eq_true]
  refine forall₂_congr fun file _ => ?_
  rw [Bool.or_eq_true, Bool.not_eq_true', decide_eq_true_iff, ← Bool.not_eq_true,
    List.contains_iff_mem, ← Decidable.imp_iff_not_or]

instance (d : Disk) (loaded : List Text) : Decidable (d.PlainlyLoaded loaded) :=
  decidable_of_iff _ Disk.all_iff_plainlyLoaded

/-- An import path that both searches read alike: no backslashes, which only the workspace
takes for slashes; not two slashes at the start, which only the workspace keeps; and not
the path of a stub. -/
structure Path.ReadAlike (path : Text) : Prop where
  forward : CodePoint.ofChar '\\' ∉ path
  notTwo : Path.rootSlashes (Path.normalize path) ≠ 2
  notStub : Stub.isKnown (Path.normalize path) = false

instance (path : Text) : Decidable (Path.ReadAlike path) :=
  decidable_of_iff (CodePoint.ofChar '\\' ∉ path ∧ Path.rootSlashes (Path.normalize path) ≠ 2 ∧
      Stub.isKnown (Path.normalize path) = false)
    ⟨fun ⟨forward, notTwo, notStub⟩ => ⟨forward, notTwo, notStub⟩,
      fun ⟨forward, notTwo, notStub⟩ => ⟨forward, notTwo, notStub⟩⟩

namespace Loading

variable {d : Disk} {start : Session} {l : Loading}

theorem toPath_of_isLoaded {path : DiskPath} (plain : d.PlainlyLoaded l.loaded)
    (proper : path.Proper) (loaded : d.isLoaded l.loaded path = true) :
    Uri.toPath (Uri.ofPath path.text) = path.text := by
  obtain ⟨file, mem⟩ := Bool.and_eq_true_iff.1 loaded
  obtain ⟨bytes, listed⟩ := Disk.mem_contents_of_isFile proper file
  exact Uri.toPath_ofPath (plain _ listed (List.contains_iff_mem.1 mem)) proper.trimmed

theorem eq_of_ofPath_eq {path other : DiskPath} (plain : d.PlainlyLoaded l.loaded)
    (proper : path.Proper) (properOther : other.Proper)
    (loaded : d.isLoaded l.loaded path = true) (loadedOther : d.isLoaded l.loaded other = true)
    (same : Uri.ofPath path.text = Uri.ofPath other.text) : path = other := by
  have texts : path.text = other.text := by
    rw [← toPath_of_isLoaded plain proper loaded, same,
      toPath_of_isLoaded plain properOther loadedOther]
  rw [← Path.parts_text proper, texts, Path.parts_text properOther]

/-- The files the workspace looks through are the loaded ones, each with its path. -/
theorem Sound.mem_diskFiles_iff (sound : l.Sound d start) (stubs : start.OnlyStubs)
    (plain : d.PlainlyLoaded l.loaded) {file : Text × Text} :
    file ∈ l.session.workspace.diskFiles ↔ ∃ path : DiskPath, path.Proper ∧
      d.isLoaded l.loaded path = true ∧ file = (Uri.ofPath path.text, path.text) := by
  rw [Workspace.diskFiles, List.mem_map]
  constructor
  · rintro ⟨r, hr, rfl⟩
    obtain ⟨mem, notStub⟩ := List.mem_filter.1 hr
    rcases sound.files r mem with old | ⟨new, -⟩
    · rw [(stubs r old).1] at notStub
      cases notStub
    · obtain ⟨path, proper, file, uri⟩ := sound.onDisk r.uri new
      have loaded : d.isLoaded l.loaded path = true :=
        Bool.and_eq_true_iff.2 ⟨file, List.contains_iff_mem.2 (uri ▸ new)⟩
      exact ⟨path, proper, loaded, by rw [uri, toPath_of_isLoaded plain proper loaded]⟩
  · rintro ⟨path, proper, loaded, rfl⟩
    obtain ⟨r, mem, uri⟩ :=
      sound.registered _ (List.contains_iff_mem.1 (Bool.and_eq_true_iff.1 loaded).2)
    refine ⟨r, List.mem_filter.2 ⟨mem, ?_⟩, ?_⟩
    · rw [uri, Uri.isBuiltin_ofPath]
      rfl
    · rw [uri, toPath_of_isLoaded plain proper loaded]

/-- A place is looked up among the loaded files. -/
theorem Sound.find?_diskFiles (sound : l.Sound d start) (stubs : start.OnlyStubs)
    (plain : d.PlainlyLoaded l.loaded) {place : DiskPath} (proper : place.Proper) :
    (l.session.workspace.diskFiles.find? (·.2 = place.text)).map (·.1) =
      if d.isLoaded l.loaded place = true then some (Uri.ofPath place.text) else none := by
  have there : ∀ file ∈ l.session.workspace.diskFiles, file.2 = place.text →
      d.isLoaded l.loaded place = true ∧ file.1 = Uri.ofPath place.text := by
    intro file mem same
    obtain ⟨path, properPath, loaded, rfl⟩ := (sound.mem_diskFiles_iff stubs plain).1 mem
    have : path = place := by
      rw [← Path.parts_text properPath, ← Path.parts_text proper]
      exact congrArg Path.parts same
    exact this ▸ ⟨loaded, rfl⟩
  split
  · next loaded =>
    have mem := (sound.mem_diskFiles_iff stubs plain).2 ⟨place, proper, loaded, rfl⟩
    cases found : l.session.workspace.diskFiles.find? (·.2 = place.text) with
    | none => exact absurd (decide_eq_true rfl) (List.find?_eq_none.1 found _ mem)
    | some file =>
      have same : file.2 = place.text := by simpa using List.find?_some found
      exact congrArg some (there file (List.mem_of_find?_eq_some found) same).2
  · next absent =>
    rw [Option.map_eq_none_iff, List.find?_eq_none]
    intro file mem same
    exact absent (there file mem (of_decide_eq_true same)).1

theorem Sound.findSome?_diskFiles (sound : l.Sound d start) (stubs : start.OnlyStubs)
    (plain : d.PlainlyLoaded l.loaded) {places : List DiskPath}
    (proper : ∀ place ∈ places, place.Proper) :
    (places.map DiskPath.text).findSome?
        (fun place => (l.session.workspace.diskFiles.find? (·.2 = place)).map (·.1)) =
      (places.find? (d.isLoaded l.loaded)).map (Uri.ofPath ·.text) := by
  induction places with
  | nil => rfl
  | cons place rest ih =>
    have later := ih fun other mem => proper other (List.mem_cons_of_mem _ mem)
    rw [List.map_cons, List.findSome?_cons,
      sound.find?_diskFiles stubs plain (proper place (List.mem_cons_self ..))]
    by_cases loaded : d.isLoaded l.loaded place = true
    · rw [if_pos loaded, List.find?_cons_of_pos loaded]
      rfl
    · rw [if_neg loaded, List.find?_cons_of_neg loaded]
      exact later

/-- No loaded file has the logical path of an import that is no stub. -/
theorem Sound.find?_logicalPath (sound : l.Sound d start) (stubs : start.OnlyStubs)
    {path : Text} (notStub : Stub.isKnown path = false) :
    l.session.workspace.files.find? (·.logicalPath = some path) = none := by
  rw [List.find?_eq_none]
  intro r mem same
  have same : r.logicalPath = some path := of_decide_eq_true same
  rcases sound.files r mem with old | ⟨-, plain⟩
  · obtain ⟨-, other, logical, known⟩ := stubs r old
    rw [same, Option.some.injEq] at logical
    rw [logical, known] at notStub
    cases notStub
  · rw [same] at plain
    cases plain

end Loading

/-! ### The places an import may mean -/

/-- The places an import may mean in a workspace: in the import directories, and at last
beside the importing file. -/
def importPlaces (directories : List DiskPath) (importer : DiskPath) (path : Text) :
    List DiskPath :=
  directories.map (·.locate path) ++ [DiskPath.locate importer.dropLast path]

section Places

variable {directories : List DiskPath} {importer : DiskPath} {path : Text}

theorem proper_of_mem_importPlaces (proper : ∀ directory ∈ directories, directory.Proper)
    (here : importer.Proper) {place : DiskPath}
    (h : place ∈ importPlaces directories importer path) : place.Proper := by
  rcases List.mem_append.1 h with mem | mem
  · obtain ⟨directory, hdirectory, rfl⟩ := List.mem_map.1 mem
    exact (proper directory hdirectory).locate path
  · rw [List.mem_singleton.1 mem]
    exact here.dropLast.locate path

theorem importCandidates_eq {settings : Settings} (unmapped : settings.mappings = [])
    (roots : settings.roots = directories.map DiskPath.text)
    (proper : ∀ directory ∈ directories, directory.Proper) (here : importer.Proper)
    (back : Uri.toPath (Uri.ofPath importer.text) = importer.text)
    (alike : Path.ReadAlike path) :
    Workspace.importCandidates settings (Uri.ofPath importer.text) (Path.normalize path) =
      (importPlaces directories importer path).map DiskPath.text := by
  have each : ∀ directory : DiskPath, directory.Proper →
      Path.clean (Path.join directory.text (Path.normalize path)) =
        (directory.locate path).text := by
    intro directory properDirectory
    rw [Path.clean_join properDirectory alike.notTwo, Path.locate_normalize alike.forward]
  rw [Workspace.importCandidates, unmapped, roots, Workspace.directoryOf, back,
    Path.parent_text here, List.filterMap_nil, List.nil_append, importPlaces, List.map_append,
    List.map_append, List.map_map, List.map_map, List.map_singleton, List.map_singleton,
    each _ here.dropLast]
  congr 1
  exact List.map_congr_left fun directory mem => each directory (proper directory mem)

/-- Normalizing changes nothing in the import directories. -/
theorem roots_withImportPaths (proper : ∀ directory ∈ directories,
      directory.Proper ∧ CodePoint.ofChar '\\' ∉ directory.text) :
    (Settings.empty.withImportPaths (directories.map DiskPath.text)).roots =
      directories.map DiskPath.text := by
  rw [Settings.roots, Settings.withImportPaths, List.map_map]
  refine (List.append_nil _).trans (List.map_congr_left fun directory mem => ?_)
  exact Path.normalize_eq_self (proper directory mem).2 (proper directory mem).1.trimmed

end Places

/-- **After a load the workspace takes the first loaded file among the places**, those in
the import directories before the one beside the importing file. -/
theorem Loading.Sound.findImport?_eq {d : Disk} {start : Session} {l : Loading}
    (sound : l.Sound d start) (stubs : start.OnlyStubs) (plain : d.PlainlyLoaded l.loaded)
    {directories : List DiskPath} (unmapped : start.workspace.settings.mappings = [])
    (roots : start.workspace.settings.roots = directories.map DiskPath.text)
    (proper : ∀ directory ∈ directories, directory.Proper) {importer target : DiskPath}
    (here : importer.Proper) (loaded : d.isLoaded l.loaded importer = true) {path : Text}
    (alike : Path.ReadAlike path)
    (found : (importPlaces directories importer path).find? (d.isLoaded l.loaded) =
      some target) :
    l.session.workspace.findImport? (Uri.ofPath importer.text) (Path.normalize path) =
      some (Uri.ofPath target.text) := by
  have candidates := importCandidates_eq unmapped roots proper here
    (Loading.toPath_of_isLoaded plain here loaded) alike
  rw [Workspace.findImport?_eq_or, sound.find?_logicalPath stubs alike.notStub, Option.map_none,
    Option.none_or, sound.settings, candidates, sound.findSome?_diskFiles stubs plain
      fun place mem => proper_of_mem_importPlaces proper here mem,
    found, Option.map_some, Option.some_or]

/-- Loads files into a session that searches the same import directories. -/
def Session.loadWith (start : Session) (d : Disk) (directories paths : List Text) :
    Except DiskFault (List Text) × Session :=
  (start.configure (.importPaths directories)).load d directories paths

/-- **The two searches for an import agree unless the nearer file is hidden.**  Files are
loaded with some import directories into a session that searches the same directories, and
an import of a loaded file was found on the disk at a path that is loaded.  Then the session
answers with the first loaded file among the places the import may mean, the one beside the
importing file last.  That is the file found on the disk exactly if this one was found in
an import directory, or no other loaded file comes first in one. -/
theorem loaded_imports_agree_unless_hidden (d : Disk) (directories : List DiskPath)
    (paths loaded : List Text) (start s : Session) (importer target : DiskPath) (path : Text)
    (begin : start = Session.empty ∨ start = Session.withStubs)
    (working : d.workingDirectory.Proper)
    (proper : ∀ directory ∈ directories,
      directory.Proper ∧ CodePoint.ofChar '\\' ∉ directory.text)
    (load : start.loadWith d (directories.map DiskPath.text) paths = (.ok loaded, s))
    (plain : d.PlainlyLoaded loaded)
    (here : importer.Proper) (importerLoaded : d.isLoaded loaded importer = true)
    (alike : Path.ReadAlike path)
    (onDisk : d.importTarget? (directories.map DiskPath.text) importer.dropLast path =
      .ok (some target))
    (targetLoaded : Uri.ofPath target.text ∈ loaded) :
    ((Session.resolveImport (Uri.ofPath importer.text) path).run s).1 =
        ((importPlaces directories importer path).find? (d.isLoaded loaded)).map
          (Uri.ofPath ·.text) ∧
      (((Session.resolveImport (Uri.ofPath importer.text) path).run s).1 =
          some (Uri.ofPath target.text) ↔
        target ≠ DiskPath.locate importer.dropLast path ∨
          ∀ other, (directories.map (·.locate path)).find? (d.isLoaded loaded) = some other →
            other = target) := by
  have properAll : ∀ directory ∈ directories, DiskPath.Proper directory := fun directory mem =>
    (proper directory mem).1
  have stubs : start.OnlyStubs := by
    rcases begin with rfl | rfl
    · exact Session.onlyStubs_empty
    · exact Session.onlyStubs_withStubs
  have settings : (start.configure
      (.importPaths (directories.map DiskPath.text))).workspace.settings =
        Settings.empty.withImportPaths (directories.map DiskPath.text) := by
    rcases begin with rfl | rfl
    · rfl
    · exact congrArg (Settings.withImportPaths · _) Session.settings_withStubs
  obtain ⟨l, sound, rfl, rfl⟩ := Session.sound_of_load properAll working rfl load
  have first := Disk.find?_isFile_of_firstFile?
    (List.forall_mem_cons.2 ⟨here.dropLast, properAll⟩) onDisk
  have isLoaded : d.isLoaded l.loaded target = true :=
    Bool.and_eq_true_iff.2 ⟨List.find?_some first, List.contains_iff_mem.2 targetLoaded⟩
  have reached : target ∈ importPlaces directories importer path := by
    rw [importPlaces, List.mem_append, or_comm, ← List.mem_append]
    exact List.mem_of_find?_eq_some first
  obtain ⟨place, found⟩ := Option.isSome_iff_exists.1
    (List.find?_isSome.2 ⟨target, reached, isLoaded⟩)
  have answer : ((Session.resolveImport (Uri.ofPath importer.text) path).run l.session).1 =
      some (Uri.ofPath place.text) := by
    rw [Session.value_resolveImport _ _ (Session.faithful_of_known_empty sound.known)]
    exact sound.findImport?_eq stubs plain (settings ▸ rfl)
      (settings ▸ roots_withImportPaths proper) properAll here importerLoaded alike found
  refine ⟨by rw [answer, found, Option.map_some], ?_⟩
  have same : Uri.ofPath place.text = Uri.ofPath target.text ↔ place = target :=
    ⟨Loading.eq_of_ofPath_eq plain
      (proper_of_mem_importPlaces properAll here (List.mem_of_find?_eq_some found))
      (proper_of_mem_importPlaces properAll here reached) (List.find?_some found) isLoaded,
      fun h => h ▸ rfl⟩
  have agree : (importPlaces directories importer path).find? (d.isLoaded l.loaded) = some target ↔
      _ := find?_concat_eq_iff (fun _ h => (Bool.and_eq_true_iff.1 h).1) first isLoaded
  rw [answer, Option.some.injEq, same, ← Option.some.injEq, ← found]
  exact agree

/-- A disk with some text files, and its root as the working directory. -/
def Disk.ofTexts (files : List (DiskPath × Text)) : Disk where
  contents := files.map fun file => (file.1, some (Utf8.encode file.2))
  workingDirectory := []
  nameLimit := none

/-- A file that imports a neighbour and a file of an import directory, and other files with
the names of both. -/
def neighbours : Disk :=
  Disk.ofTexts [(["src", "main.proto"], "import 'x.proto'; import 'y.proto';"),
    (["src", "x.proto"], ""), (["inc", "x.proto"], ""), (["inc", "y.proto"], ""),
    (["old", "y.proto"], "")]

theorem neighbours_agree_in_directory :
    ((Session.resolveImport (Uri.ofPath (DiskPath.text ["src", "main.proto"])) "y.proto").run
      (Session.empty.loadWith neighbours (([["inc"]] : List DiskPath).map DiskPath.text)
        ["old/y.proto", "src/main.proto"]).2).1 =
      some (Uri.ofPath (DiskPath.text ["inc", "y.proto"])) := by
  have facts : (Session.empty.loadWith neighbours (([["inc"]] : List DiskPath).map DiskPath.text)
        ["old/y.proto", "src/main.proto"]).1 =
          .ok [Uri.ofPath "/old/y.proto", Uri.ofPath "/src/main.proto", Uri.ofPath "/src/x.proto",
            Uri.ofPath "/inc/y.proto"] ∧
      neighbours.PlainlyLoaded [Uri.ofPath "/old/y.proto", Uri.ofPath "/src/main.proto",
        Uri.ofPath "/src/x.proto", Uri.ofPath "/inc/y.proto"] ∧ Path.ReadAlike "y.proto" := by
    decide +kernel
  obtain ⟨load, plain, alike⟩ := facts
  exact (loaded_imports_agree_unless_hidden neighbours [["inc"]] _ _ Session.empty _
    ["src", "main.proto"] ["inc", "y.proto"] "y.proto" (Or.inl rfl) (by decide) (by decide +kernel)
    (Prod.ext load rfl) plain (by decide +kernel) (by decide +kernel) alike (by decide +kernel)
    (by decide +kernel)).2.2 (Or.inl (by decide +kernel))

/-! ### Imports that the two searches read differently -/

/-- A load, an import of one of the files, and the file it was found to mean on the disk. -/
structure ImportCase where
  start : Session
  disk : Disk
  directories : List Text
  paths : List Text
  importer : DiskPath
  path : Text
  target : DiskPath

namespace ImportCase

/-- An import statement of a loaded file, with no stub's path, that was found on the disk at
the path of a loaded file and means something else in the session. -/
def Missed (c : ImportCase) : Prop :=
  ∃ loaded s, c.start.loadWith c.disk c.directories c.paths = (.ok loaded, s) ∧
    c.disk.isLoaded loaded c.importer = true ∧
    (∃ r ∈ s.workspace.files, r.uri = Uri.ofPath c.importer.text ∧ c.path ∈ r.imports) ∧
    Stub.isKnown c.path = false ∧
    c.disk.importTarget? c.directories c.importer.dropLast c.path = .ok (some c.target) ∧
    Uri.ofPath c.target.text ∈ loaded ∧
    ((Session.resolveImport (Uri.ofPath c.importer.text) c.path).run s).1 ≠
      some (Uri.ofPath c.target.text)

/-- Whether an import is missed, by looking it up in the workspace. -/
def isMissed (c : ImportCase) : Bool :=
  match c.start.loadWith c.disk c.directories c.paths with
  | (.ok loaded, s) =>
    s.known.isEmpty && c.disk.isLoaded loaded c.importer &&
      s.workspace.files.any (fun r =>
        r.uri = Uri.ofPath c.importer.text && r.imports.contains c.path) &&
      !Stub.isKnown c.path &&
      decide (c.disk.importTarget? c.directories c.importer.dropLast c.path =
        .ok (some c.target)) &&
      loaded.contains (Uri.ofPath c.target.text) &&
      decide (s.workspace.findImport? (Uri.ofPath c.importer.text) (Path.normalize c.path) ≠
        some (Uri.ofPath c.target.text))
  | _ => false

theorem missed_of_isMissed {c : ImportCase} (h : c.isMissed = true) : c.Missed := by
  unfold isMissed at h
  split at h
  · next loaded s load =>
    simp only [Bool.and_eq_true, decide_eq_true_eq, List.any_eq_true, Bool.not_eq_true',
      List.contains_iff_mem] at h
    obtain ⟨⟨⟨⟨⟨⟨unasked, importer⟩, stated⟩, notStub⟩, onDisk⟩, target⟩, other⟩ := h
    refine ⟨loaded, s, load, importer, stated, notStub, onDisk, target, ?_⟩
    have faithful : s.Faithful := by
      intro importer' path' answer known
      rw [Std.HashMap.getElem?_of_isEmpty unasked] at known
      cases known
    rwa [Session.value_resolveImport _ _ faithful]
  · cases h

/-- The session prefers the file of the import directory. -/
def hiddenNeighbour : ImportCase :=
  ⟨Session.empty, neighbours, ["/inc"], ["src/main.proto", "inc/x.proto"],
    ["src", "main.proto"], "x.proto", ["src", "x.proto"]⟩

/-- Without its last slash the path is that of a stub. -/
def slashAfterStub : ImportCase :=
  ⟨Session.withStubs, Disk.ofTexts [(["m"], "import 'google/protobuf/any.proto/';"),
    (["google", "protobuf", "any.proto"], "")], [], ["m"],
    ["m"], "google/protobuf/any.proto/", ["google", "protobuf", "any.proto"]⟩

/-- A backslash is part of a name on the disk. -/
def backslashInName : ImportCase :=
  ⟨Session.empty, Disk.ofTexts [(["m"], "import 'a\\\\b';"), (["a\\b"], ""), (["a", "b"], "")],
    [], ["a/b", "m"], ["m"], "a\\b", ["a\\b"]⟩

/-- A file that imports `x`, with a file `x` in two directories. -/
def twoTargets (statement : Text) (directory : Text) : Disk :=
  Disk.ofTexts [(["m"], statement), (["old", "x"], ""), ([directory, "x"], "")]

/-- The places in a relative directory are relative, and loaded files have absolute paths. -/
def relativeDirectory : ImportCase :=
  ⟨Session.empty, twoTargets "import 'x';" "inc", ["inc"], ["old/x", "m"], ["m"], "x",
    ["inc", "x"]⟩

/-- Two slashes at the start of a path are kept. -/
def twoSlashes : ImportCase :=
  ⟨Session.empty, twoTargets "import '//inc/x';" "inc", [], ["old/x", "inc/x", "m"], ["m"],
    "//inc/x", ["inc", "x"]⟩

/-- A colon in the third place makes the first name that of a drive. -/
def driveName : ImportCase :=
  ⟨Session.empty, twoTargets "import 'x';" "c:", ["/c:"], ["old/x", "m"], ["m"], "x", ["c:", "x"]⟩

/-- A surrogate is not read back from a URI. -/
def surrogateName : ImportCase :=
  ⟨Session.empty, twoTargets "import 'x';" [⟨0xDCFF, by decide⟩],
    [DiskPath.text [[⟨0xDCFF, by decide⟩]]], ["old/x", "m"], ["m"], "x",
    [[⟨0xDCFF, by decide⟩], "x"]⟩

/-- **The searches differ** where the import directories hide a neighbour, and where a path
is not read alike. -/
theorem hidden_and_misread_imports_are_missed :
    hiddenNeighbour.Missed ∧ slashAfterStub.Missed ∧ backslashInName.Missed ∧
      relativeDirectory.Missed ∧ twoSlashes.Missed ∧ driveName.Missed ∧ surrogateName.Missed := by
  -- All in one computation, which reads the paths of the stubs once.
  have computed : hiddenNeighbour.isMissed ∧ slashAfterStub.isMissed ∧ backslashInName.isMissed ∧
      relativeDirectory.isMissed ∧ twoSlashes.isMissed ∧ driveName.isMissed ∧
      surrogateName.isMissed := by
    decide +kernel
  obtain ⟨hidden, stub, backslash, relative, slashes, drive, surrogate⟩ := computed
  exact ⟨missed_of_isMissed hidden, missed_of_isMissed stub, missed_of_isMissed backslash,
    missed_of_isMissed relative, missed_of_isMissed slashes, missed_of_isMissed drive,
    missed_of_isMissed surrogate⟩

end ImportCase
end ProtoAtlas
