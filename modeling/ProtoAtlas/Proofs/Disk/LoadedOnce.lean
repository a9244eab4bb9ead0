/-
# Loading is closed under imports

On a disk without a limit on names, loading some files loads exactly the readable files
that imports lead to, in depth-first order, and every place once.  Whatever a loaded file
imports is loaded too, unless a stub serves it or it cannot be read
(`load_follows_imports_once`).

Files are told apart by their places, and known in a session by their URIs.  A name that a
text can spell in two ways is one file at two places with one URI, and such a file is
loaded once for each spelling (`TwoSpellings.file_is_loaded_twice`).  Where every file has
one spelling, its URI is loaded once and stands for its tree.
-/

import ProtoAtlas.Proofs.Disk.Agreement
import ProtoAtlas.Proofs.Disk.DepthFirst

namespace ProtoAtlas

open Relation (ReflTransGen)

namespace Disk

variable {d : Disk}

/-- The places where a disk lists files. -/
def filePlaces (d : Disk) : List DiskPath :=
  (d.contents.filter (·.2.isSome)).map (·.1)

/-- No file is listed under two spellings of its path. -/
def OneSpelling (d : Disk) : Prop :=
  ∀ path ∈ d.filePlaces, ∀ other ∈ d.filePlaces,
    Uri.ofPath path.text = Uri.ofPath other.text → path = other

theorem all_iff_oneSpelling (d : Disk) :
    (d.filePlaces.all fun path => d.filePlaces.all fun other =>
      !decide (Uri.ofPath path.text = Uri.ofPath other.text) || decide (path = other)) = true ↔
        d.OneSpelling := by
  rw [List.all_eq_true]
  refine forall₂_congr fun path _ => ?_
  rw [List.all_eq_true]
  refine forall₂_congr fun other _ => ?_
  rw [Bool.or_eq_true, Bool.not_eq_true', decide_eq_true_iff, decide_eq_false_iff_not,
    ← Decidable.imp_iff_not_or]

instance (d : Disk) : Decidable d.OneSpelling :=
  decidable_of_iff _ d.all_iff_oneSpelling

/-- A file has a statement that imports another, and no stub serves it. -/
def Imports (d : Disk) (s : Session) (directories : List Text) (path target : DiskPath) : Prop :=
  ∃ source, d.read path = .ok source ∧
    ∃ i ∈ (SchemaFile.parse (Uri.ofPath path.text) source).imports,
      s.serves i.path.text = false ∧
        d.importTarget? directories path.dropLast i.path.text = .ok (some target)

theorem importedFile?_eq_some {s : Session} {directories : List Text} {path target : DiskPath}
    {i : ImportDecl} : d.importedFile? s directories path i = some target ↔
      s.serves i.path.text = false ∧
        d.importTarget? directories path.dropLast i.path.text = .ok (some target) := by
  unfold importedFile?
  split
  · next served => simp [served]
  · next unserved =>
    rw [Bool.not_eq_true] at unserved
    cases d.importTarget? directories path.dropLast i.path.text <;> simp [unserved]

theorem mem_importedFiles {s : Session} {directories : List Text} {path target : DiskPath} :
    target ∈ d.importedFiles s directories path ↔ d.Imports s directories path target := by
  unfold importedFiles Imports
  cases d.read path with
  | error fault => simp
  | ok source => simp only [List.mem_filterMap, importedFile?_eq_some, Except.ok.injEq,
      exists_eq_left']

theorem proper_of_mapM_resolve (working : d.workingDirectory.Proper) {roots : List Text}
    {places : List DiskPath} (h : roots.mapM d.resolve = .ok places) :
    ∀ place ∈ places, place.Proper := by
  induction roots generalizing places with
  | nil =>
    cases h
    exact fun _ mem => absurd mem List.not_mem_nil
  | cons root rest ih =>
    rw [List.mapM_cons] at h
    cases resolved : d.resolve root with
    | error fault =>
      rw [resolved] at h
      cases h
    | ok place =>
      rw [resolved] at h
      cases others : rest.mapM d.resolve with
      | error fault =>
        rw [others] at h
        cases h
      | ok more =>
        rw [others] at h
        cases h
        exact List.forall_mem_cons.2 ⟨proper_of_resolve working resolved, ih others⟩

/-- Imports lead from proper places to proper places. -/
theorem proper_of_reached (working : d.workingDirectory.Proper) {s : Session}
    {directories : List Text} {root path : DiskPath} (proper : root.Proper)
    (reached : ReflTransGen (d.Imports s directories) root path) : path.Proper := by
  induction reached with
  | refl => exact proper
  | tail _ step _ =>
    obtain ⟨_, _, _, _, _, found⟩ := step
    exact proper_of_firstFile? working found

theorem isReadable_iff {path : DiskPath} :
    d.isReadable path = true ↔ ∃ source, d.read path = .ok source := by
  unfold isReadable
  cases d.read path <;> simp

theorem mem_filePlaces {path : DiskPath} (proper : path.Proper) (file : d.isFile path = true) :
    path ∈ d.filePlaces := by
  obtain ⟨bytes, listed⟩ := mem_contents_of_isFile proper file
  exact List.mem_map.2 ⟨_, List.mem_filter.2 ⟨listed, rfl⟩, rfl⟩

/-- With one spelling for every file, readable files at proper places have different URIs. -/
theorem OneSpelling.eq_of_ofPath_eq (single : d.OneSpelling) {path other : DiskPath}
    (proper : path.Proper) (proper' : other.Proper) (readable : d.isReadable path = true)
    (readable' : d.isReadable other = true) (same : Uri.ofPath path.text = Uri.ofPath other.text) :
    path = other := by
  obtain ⟨_, read⟩ := isReadable_iff.1 readable
  obtain ⟨_, read'⟩ := isReadable_iff.1 readable'
  exact single path (mem_filePlaces proper (isFile_of_read read)) other
    (mem_filePlaces proper' (isFile_of_read read')) same

end Disk

theorem Load.lt_maxDepth (d : Disk) : d.contents.length < Load.maxDepth d := by
  unfold Load.maxDepth
  omega

theorem Loading.registers_start (d : Disk) (s : Session) : Loading.Registers d s ⟨s, [], []⟩ :=
  ⟨fun _ => rfl, fun _ mem => absurd mem List.not_mem_nil⟩

/-- A load that does not fail is a walk from the places of its files. -/
theorem Session.walks_of_load {s s' : Session} {d : Disk} (unlimited : d.nameLimit = none)
    (working : d.workingDirectory.Proper) {directories roots loaded : List Text}
    (h : s.load d directories roots = (.ok loaded, s')) :
    ∃ l : Loading, l.loaded = loaded ∧ l.session = s' ∧
      ∃ places, roots.mapM d.resolve = .ok places ∧
        Loading.Walks d s directories ⟨s, [], []⟩ places l := by
  have ends : Load.Ends (Load.files d directories roots) ⟨s, [], []⟩ _ _ :=
    Load.ends_files unlimited working (Load.lt_maxDepth d) roots (Loading.registers_start d s)
  unfold Session.load at h
  unfold Load.Ends at ends
  split at h
  · next l run =>
    cases h
    rw [EStateM.run] at run
    rw [run] at ends
    exact ⟨l, rfl, rfl, ends⟩
  · cases h

/-- **Loading is closed under imports and visits every place once.**  The bound on how deep
imports may nest is never what ends it.  When it does not fail, the URIs it gives are those
of the readable files among the places of a depth-first walk along imports; these are the
readable files that can be reached, without repetition, and every URI stands for the tree of
a file that has it.  What a loaded file imports is loaded or cannot be read.  Where no file is
listed under two spellings, no URI is given twice, and each stands for the tree of its own
file. -/
theorem load_follows_imports_once (d : Disk) (unlimited : d.nameLimit = none)
    (working : d.workingDirectory.Proper) (s : Session) (directories roots : List Text) :
    (∀ depth, Load.maxDepth d ≤ depth →
      roots.forM (Load.named d directories depth) ⟨s, [], []⟩ =
        Load.files d directories roots ⟨s, [], []⟩) ∧
    ∀ loaded s', s.load d directories roots = (.ok loaded, s') →
      ∃ places order files : List DiskPath,
        roots.mapM d.resolve = .ok places ∧
        DepthFirst (d.importedFiles s directories) [] places order ∧
        files = order.filter d.isReadable ∧ files.Nodup ∧
        loaded = files.map (Uri.ofPath ·.text) ∧
        (∀ path, path ∈ files ↔ d.isReadable path = true ∧
          ∃ root ∈ places, ReflTransGen (d.Imports s directories) root path) ∧
        (∀ path ∈ files, ∀ target, d.Imports s directories path target →
          Uri.ofPath target.text ∈ loaded ∨ d.isReadable target = false) ∧
        (∀ uri ∈ loaded, ∃ (path : DiskPath) (source : Text), d.read path = .ok source ∧
          uri = Uri.ofPath path.text ∧ s'.workspace.file? uri =
            some (FileRecord.ofTree uri (SchemaFile.parse uri source) none)) ∧
        (d.OneSpelling → loaded.Nodup ∧ ∀ path ∈ files, ∃ source, d.read path = .ok source ∧
          s'.workspace.file? (Uri.ofPath path.text) = some (FileRecord.ofTree
            (Uri.ofPath path.text) (SchemaFile.parse (Uri.ofPath path.text) source) none)) := by
  constructor
  · intro depth bound
    exact Load.files_eq unlimited working ((Load.lt_maxDepth d).trans_le bound)
      (Load.lt_maxDepth d) roots (Loading.registers_start d s)
  intro loaded s' h
  obtain ⟨l, rfl, rfl, places, resolved, order, walk, -, listed, registers⟩ :=
    Session.walks_of_load unlimited working h
  rw [List.nil_append] at listed
  have entered : ∀ path, path ∈ order ↔
      ∃ root ∈ places, ReflTransGen (d.Imports s directories) root path := fun path => by
    simpa only [Disk.mem_importedFiles] using walk.mem_iff
  have proper : ∀ path ∈ order, path.Proper := by
    intro path mem
    obtain ⟨root, asked, reached⟩ := (entered path).1 mem
    exact Disk.proper_of_reached working
      (Disk.proper_of_mapM_resolve working resolved root asked) reached
  refine ⟨places, order, _, resolved, walk, rfl, walk.nodup.1.filter _, listed, fun path => ?_,
    fun path mem target imported => ?_, fun uri mem => ?_, fun single => ⟨?_, fun path mem => ?_⟩⟩
  · rw [List.mem_filter, entered, and_comm]
  · have there : target ∈ order :=
      (walk.closed.2 path (List.mem_filter.1 mem).1 target
        (Disk.mem_importedFiles.2 imported)).resolve_left List.not_mem_nil
    cases readable : d.isReadable target with
    | false => exact Or.inr rfl
    | true =>
      rw [listed]
      exact Or.inl (List.mem_map_of_mem (List.mem_filter.2 ⟨there, readable⟩))
  · obtain ⟨path, source, -, its⟩ := registers.trees uri mem
    exact ⟨path, source, its⟩
  · rw [listed]
    refine (walk.nodup.1.filter _).map_on fun path mem other mem' same => ?_
    obtain ⟨there, readable⟩ := List.mem_filter.1 mem
    obtain ⟨there', readable'⟩ := List.mem_filter.1 mem'
    exact single.eq_of_ofPath_eq (proper path there) (proper other there') readable readable' same
  · have known : Uri.ofPath path.text ∈ l.loaded := listed ▸ List.mem_map_of_mem mem
    obtain ⟨there, readable⟩ := List.mem_filter.1 mem
    obtain ⟨other, source, proper', read, same, registered⟩ := registers.trees _ known
    obtain rfl : path = other := single.eq_of_ofPath_eq (proper path there) proper' readable
      (Disk.isReadable_iff.2 ⟨source, read⟩) same
    exact ⟨source, read, registered⟩

namespace Cyclic

/-- The place of the file that is asked for. -/
def asked : DiskPath := ["a"]

/-- The place of a file that imports it, and is imported by it. -/
def back : DiskPath := ["b"]

/-- Two files that import each other, and one that is no text. -/
def disk : Disk where
  contents := [(asked, some (Utf8.encode "import 'b'; import 'x';")),
    (back, some (Utf8.encode "import 'a';")), (["x"], some [0xFF])]
  workingDirectory := []
  nameLimit := none

/-- The cycle is followed once around, and what is no text is left out. -/
theorem cycle_is_followed_once :
    (Session.empty.load disk [] ["a"]).1 = .ok [Uri.ofPath asked.text, Uri.ofPath back.text] ∧
      ∃ source, disk.read back = .ok source ∧
        (Session.empty.load disk [] ["a"]).2.workspace.file? (Uri.ofPath back.text) =
          some (FileRecord.ofTree (Uri.ofPath back.text)
            (SchemaFile.parse (Uri.ofPath back.text) source) none) := by
  have facts : (Session.empty.load disk [] ["a"]).1 =
        .ok [Uri.ofPath asked.text, Uri.ofPath back.text] ∧
      disk.OneSpelling ∧ (["a"] : List Text).mapM disk.resolve = .ok [asked] ∧
      disk.isReadable back = true ∧
      (disk.importedFiles Session.empty [] asked).contains back = true := by
    decide +kernel
  obtain ⟨load, single, resolved, readable, imported⟩ := facts
  obtain ⟨places, _, files, rooted, -, -, -, -, member, -, -, trees⟩ :=
    (load_follows_imports_once disk rfl (fun _ mem => absurd mem List.not_mem_nil)
      Session.empty [] ["a"]).2 _ _ (Prod.ext load rfl)
  obtain rfl : [asked] = places := Except.ok.inj (resolved.symm.trans rooted)
  have there : back ∈ files := (member back).2
    ⟨readable, asked, List.mem_cons_self,
      .single (Disk.mem_importedFiles.1 (List.contains_iff_mem.1 imported))⟩
  exact ⟨load, (trees single).2 back there⟩

end Cyclic

namespace TwoSpellings

/-- The bytes of `é`, spelled one by one. -/
def bytewise : Text := [⟨0xDCC3, by decide⟩, ⟨0xDCA9, by decide⟩]

/-- A file that imports `é` under both spellings. -/
def listed : Disk :=
  Disk.ofTexts [(["m"], "import 'é'; import '\\udcc3\\udca9';"), (["é"], "")]

/-- The same disk, with the file listed under its second spelling too. -/
def disk : Disk :=
  { listed with contents := listed.contents ++ listed.respelled [bytewise] }

/-- **A file with two spellings is loaded twice**, although it is one file with one URI. -/
theorem file_is_loaded_twice :
    disk.nameLimit = none ∧ Utf8.encode "é" = Utf8.encode bytewise ∧
      disk.contents = listed.contents ++ [([bytewise], some [])] ∧
      (Session.empty.load disk [] ["m"]).1 =
        .ok [Uri.ofPath "/m", Uri.ofPath "/é", Uri.ofPath "/é"] ∧
      ¬ [Uri.ofPath "/m", Uri.ofPath "/é", Uri.ofPath "/é"].Nodup := by
  have facts : disk.nameLimit = none ∧ Utf8.encode "é" = Utf8.encode bytewise ∧
      disk.contents = listed.contents ++ [([bytewise], some [])] ∧
      (Session.empty.load disk [] ["m"]).1 =
        .ok [Uri.ofPath "/m", Uri.ofPath "/é", Uri.ofPath "/é"] := by
    decide +kernel
  obtain ⟨unlimited, bytes, contents, load⟩ := facts
  exact ⟨unlimited, bytes, contents, load, by simp⟩

end TwoSpellings

end ProtoAtlas
