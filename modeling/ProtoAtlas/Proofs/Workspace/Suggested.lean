/-
# What a suggested import means

The path to write for an import is what is left of the file's path inside the nearest root,
so it is the shortest of the paths that the roots give.  To find out what a path means, the
roots are tried in the order they are set, whichever is nearest.  The two agree unless another
loaded file is met first (`Workspace.Unhidden`): one that has the suggestion as its logical
path, one that stands at an earlier place, or, for a file at none of the places, an earlier
one whose path ends alike.

For a file with a cleaned path the last case does not arise, because the nearest root leads
to the file itself (`Workspace.unhidden_iff_of_clean`).
-/

import ProtoAtlas.Proofs.Disk.Agreement

namespace ProtoAtlas

/-! ### The first hit of a search -/

section Search

variable {α β : Type} [DecidableEq α]

/-- A search that gives `b` only at `a` gives `b` if `a` is there and nothing before it gives
anything. -/
theorem findSome?_eq_some_iff_takeWhile {g : α → Option β} {a : α} {b : β} (hit : g a = some b)
    (only : ∀ c, g c = some b → c = a) (xs : List α) :
    xs.findSome? g = some b ↔ a ∈ xs ∧ ∀ c ∈ xs.takeWhile (· ≠ a), g c = none := by
  induction xs with
  | nil => simp
  | cons c rest ih =>
    by_cases same : c = a
    · rw [same, List.findSome?_cons_of_isSome (by rw [hit]; rfl), hit]
      simp
    · cases first : g c with
      | none =>
        rw [List.findSome?_cons_of_isNone (by rw [first]; rfl), ih]
        simp [same, first, Ne.symm same]
      | some d =>
        have other : d ≠ b := fun h => same (only c (h ▸ first))
        rw [List.findSome?_cons_of_isSome (by rw [first]; rfl), first]
        simp [same, first, other]

theorem find?_eq_some_iff_takeWhile {p : α → Bool} {a : α} (accepted : p a = true) (xs : List α) :
    xs.find? p = some a ↔ a ∈ xs ∧ ∀ c ∈ xs.takeWhile (· ≠ a), p c = false := by
  have hit : Option.guard p a = some a := by simp [Option.guard, accepted]
  have only : ∀ c, Option.guard p c = some a → c = a := fun c h => (Option.guard_eq_some_iff.1 h).1
  rw [← List.findSome?_guard, findSome?_eq_some_iff_takeWhile hit only]
  simp [Option.guard]

theorem takeWhile_append_of_mem {a : α} {xs : List α} (mem : a ∈ xs) (ys : List α) :
    (xs ++ ys).takeWhile (· ≠ a) = xs.takeWhile (· ≠ a) := by
  induction xs with
  | nil => cases mem
  | cons c rest ih =>
    by_cases same : c = a
    · simp [same]
    · have later : a ∈ rest := (List.mem_cons.1 mem).resolve_left (Ne.symm same)
      rw [List.cons_append, List.takeWhile_cons_of_pos (by simpa using same),
        List.takeWhile_cons_of_pos (by simpa using same), ih later]

end Search

/-! ### Paths inside a directory -/

theorem Text.not_of_getLast?_dropEndWhile {p : CodePoint → Bool} {t : Text} {c : CodePoint}
    (last : (t.dropEndWhile p).getLast? = some c) : p c = false := by
  rw [dropEndWhile, List.getLast?_reverse] at last
  have kept := List.head?_dropWhile_not p t.reverse
  rwa [last] at kept

namespace Path

/-- A path inside a directory is the directory, a slash, and what is left. -/
theorem split_of_inside? {directory path rest : Text} (h : inside? directory path = some rest) :
    ∃ front, path = front ++ slash :: rest ∧
      ((normalize directory = front ∧ front.getLast? ≠ some slash) ∨
        normalize directory = front ++ [slash]) := by
  have dropped : ∀ {start : Text}, Text.dropPrefix? start path = some rest →
      path = start ++ rest := by
    intro start found
    unfold Text.dropPrefix? at found
    split at found
    · next isStart =>
      rw [← Option.some.inj found]
      exact (List.prefix_iff_eq_append.1 (List.isPrefixOf_iff_prefix.1 isStart)).symm
    · cases found
  unfold inside? at h
  dsimp only at h
  split at h
  · next ends =>
    obtain ⟨front, split⟩ := List.getLast?_eq_some_iff.1 ends
    exact ⟨front, by rw [dropped h, split, List.append_assoc, List.singleton_append], .inr split⟩
  · next open_ =>
    exact ⟨_, by rw [dropped h, List.append_assoc, List.singleton_append], .inl ⟨rfl, open_⟩⟩

theorem endsWith_of_inside? {directory path rest : Text} (h : inside? directory path = some rest) :
    endsWith path rest = true := by
  obtain ⟨front, split, -⟩ := split_of_inside? h
  rw [endsWith, Bool.or_eq_true, List.isSuffixOf_iff_suffix]
  exact .inr ⟨front, split.symm⟩

/-- A normalized path has no backslash and no slash at its end, unless it is the root. -/
structure Normal (path : Text) : Prop where
  forward : CodePoint.ofChar '\\' ∉ path
  trimmed : 1 < path.length → path.getLast? ≠ some slash

theorem normal_normalize (path : Text) : Normal (normalize path) := by
  have forward : CodePoint.ofChar '\\' ∉ path.replace '\\' '/' := by
    intro h
    obtain ⟨c, -, same⟩ := List.mem_map.1 h
    split at same
    · exact absurd same (by decide)
    · next other => exact other same
  unfold normalize
  dsimp only
  generalize path.replace '\\' '/' = path at forward
  split
  · obtain ⟨tail, whole, -⟩ := Text.exists_dropEndWhile (· = slash) path
    split
    · exact ⟨by decide, by decide⟩
    · refine ⟨fun h => forward (whole ▸ List.mem_append_left tail h), fun _ last => ?_⟩
      exact absurd (Text.not_of_getLast?_dropEndWhile last) (by simp)
  · next short =>
    refine ⟨forward, fun long last => short ?_⟩
    rw [Bool.and_eq_true]
    exact ⟨decide_eq_true long, decide_eq_true last⟩

theorem Normal.normalize_eq {path : Text} (normal : Normal path) : normalize path = path :=
  normalize_eq_self normal.forward normal.trimmed

theorem normal_toPath (uri : Text) : Normal (Uri.toPath uri) := by
  unfold Uri.toPath
  split
  · exact normal_normalize _
  · exact normal_normalize _

/-- What is left of a normalized path is normalized. -/
theorem normalize_of_inside? {directory path rest : Text} (normal : Normal path)
    (h : inside? directory path = some rest) : normalize rest = rest := by
  obtain ⟨front, rfl, -⟩ := split_of_inside? h
  refine Normal.normalize_eq ⟨fun back => normal.forward (by simp [back]), fun long last => ?_⟩
  refine normal.trimmed ?_ ?_
  · rw [List.length_append, List.length_cons]
    omega
  · rw [List.getLast?_append, List.getLast?_cons, last]
    rfl

/-! ### Cleaned paths -/

/-- A root leads to the paths inside it. -/
theorem clean_join_of_inside? {p : DiskPath} (proper : p.Proper) {root rest : Text}
    (absolute : isAbsolute root = true) (normal : Normal root)
    (h : inside? root p.text = some rest) : clean (join root rest) = p.text := by
  obtain ⟨front, split, form⟩ := split_of_inside? h
  rw [normal.normalize_eq] at form
  have relative := isAbsolute_of_text_eq proper split
  have nonempty : root ≠ [] := by
    rintro rfl
    cases absolute
  have joined : join root rest = p.text := by
    rw [join, if_neg (by simp [relative]), split]
    rcases form with ⟨rfl, last⟩ | rfl
    · rw [if_neg (by simp [nonempty, last])]
    · rw [if_pos (by simp), List.append_assoc, List.singleton_append]
  rw [joined, clean_text proper]

end Path

theorem Uri.builtinPath?_eq_none {uri : Text} (h : isBuiltin uri = false) :
    builtinPath? uri = none := by
  rw [builtinPath?, Text.dropPrefix?, if_neg]
  rw [isBuiltin] at h
  simp [h]

namespace Workspace

/-! ### The suggestion -/

theorem lastOccurrence?_eq_none {pattern t : Text} (h : ¬pattern <:+: t) :
    lastOccurrence? pattern t = none := by
  induction t with
  | nil => rfl
  | cons c cs ih =>
    rw [List.infix_cons_iff, not_or] at h
    rw [lastOccurrence?, ih h.2]
    exact if_neg fun start => h.1 (List.isPrefixOf_iff_prefix.1 start)

theorem foldl_shorter (ts : List Text) (b : Text) :
    ∃ t, ts.foldl shorter (some b) = some t ∧ t ∈ b :: ts ∧ ∀ u ∈ b :: ts, t.length ≤ u.length := by
  induction ts generalizing b with
  | nil => exact ⟨b, rfl, by simp, by simp⟩
  | cons a rest ih =>
    rw [List.foldl_cons, shorter]
    split
    · next less =>
      obtain ⟨t, run, mem, least⟩ := ih a
      refine ⟨t, run, List.mem_cons_of_mem b mem, fun u hu => ?_⟩
      have := least a List.mem_cons_self
      rcases List.mem_cons.1 hu with rfl | hu
      · omega
      · exact least u hu
    · next notLess =>
      obtain ⟨t, run, mem, least⟩ := ih b
      have := least b List.mem_cons_self
      refine ⟨t, run, ?_, fun u hu => ?_⟩
      · rcases List.mem_cons.1 mem with rfl | mem
        · exact List.mem_cons_self
        · exact List.mem_cons_of_mem b (List.mem_cons_of_mem a mem)
      · rcases List.mem_cons.1 hu with rfl | hu
        · exact this
        · rcases List.mem_cons.1 hu with rfl | hu
          · omega
          · exact least u (List.mem_cons_of_mem b hu)

/-- A path is written from the nearest root. -/
theorem exists_insideRoots? {settings : Settings} {root path rest : Text}
    (mem : root ∈ settings.roots) (inside : Path.inside? root path = some rest) :
    ∃ spelling, insideRoots? settings path = some spelling ∧
      (∃ root ∈ settings.roots, Path.inside? root path = some spelling) ∧
      ∀ root ∈ settings.roots, ∀ rest, Path.inside? root path = some rest →
        spelling.length ≤ rest.length := by
  have each : ∀ t, t ∈ settings.roots.filterMap (Path.inside? · path) ↔
      ∃ root ∈ settings.roots, Path.inside? root path = some t := fun t => List.mem_filterMap
  have found := (each rest).2 ⟨root, mem, inside⟩
  unfold insideRoots?
  generalize settings.roots.filterMap (Path.inside? · path) = ts at found each
  cases ts with
  | nil => cases found
  | cons b ts =>
    obtain ⟨t, run, mem, least⟩ := foldl_shorter ts b
    exact ⟨t, run, (each t).1 mem, fun root hroot rest hrest =>
      least rest ((each rest).2 ⟨root, hroot, hrest⟩)⟩

variable {w : Workspace} {working importer target spelling : Text} {r : FileRecord}

theorem suggestImport?_eq_insideRoots? (unmapped : w.settings.mappings = [])
    (loaded : w.file? target = some r) (onDisk : Uri.isBuiltin target = false)
    (unnamed : r.logicalPath = none) (outside : ¬("/google/" : Text) <:+: Uri.toPath target)
    (nearest : insideRoots? w.settings (Uri.toPath target) = some spelling) :
    w.suggestImport? working importer target = some spelling := by
  have unlisted : (w.file? target).bind (·.logicalPath) = none := by rw [loaded]; exact unnamed
  simp only [suggestImport?, Uri.builtinPath?_eq_none onDisk, unlisted,
    lastOccurrence?_eq_none outside, unmapped, List.findSome?_nil, nearest]

/-! ### What hides a file -/

/-- No other loaded file is met before the target when a path that its own path ends with is
looked up. -/
structure Unhidden (w : Workspace) (importer spelling target : Text) : Prop where
  logical : ∀ r ∈ w.files, r.logicalPath ≠ some spelling
  places : ∀ place ∈ (importCandidates w.settings importer spelling).takeWhile
    (· ≠ Uri.toPath target), ∀ file ∈ w.diskFiles, file.2 ≠ place
  endings : Uri.toPath target ∉ importCandidates w.settings importer spelling →
    ∀ file ∈ w.diskFiles.takeWhile (· ≠ (target, Uri.toPath target)),
      Path.endsWith file.2 spelling = false

theorem eq_of_mem_diskFiles {file : Text × Text} (h : file ∈ w.diskFiles) :
    file = (file.1, Uri.toPath file.1) := by
  obtain ⟨r, -, rfl⟩ := List.mem_map.1 h
  rfl

theorem mem_diskFiles (loaded : w.file? target = some r) (onDisk : Uri.isBuiltin target = false) :
    (target, Uri.toPath target) ∈ w.diskFiles := by
  have uri : r.uri = target := by simpa using List.find?_some loaded
  refine List.mem_map.2 ⟨r, List.mem_filter.2 ⟨List.mem_of_find?_eq_some loaded, ?_⟩, by rw [uri]⟩
  rw [uri, onDisk]
  rfl

theorem find?_diskFiles_eq {p : Text × Text → Bool}
    (h : (w.diskFiles.find? p).map (·.1) = some target) :
    w.diskFiles.find? p = some (target, Uri.toPath target) := by
  obtain ⟨file, found, rfl⟩ := Option.map_eq_some_iff.1 h
  rw [found, ← eq_of_mem_diskFiles (List.mem_of_find?_eq_some found)]

/-- The file at a place. -/
def fileAt? (w : Workspace) (place : Text) : Option Text :=
  (w.diskFiles.find? (·.2 = place)).map (·.1)

theorem fileAt?_eq_none {place : Text} :
    w.fileAt? place = none ↔ ∀ file ∈ w.diskFiles, file.2 ≠ place := by
  rw [fileAt?, Option.map_eq_none_iff, List.find?_eq_none]
  simp

/-- A file stands at its path only. -/
theorem eq_toPath_of_fileAt? {place : Text} (h : w.fileAt? place = some target) :
    place = Uri.toPath target := by
  have same := List.find?_some (find?_diskFiles_eq h)
  exact (of_decide_eq_true same).symm

section Target

variable (unnamed : ∀ r ∈ w.files, r.uri = target → r.logicalPath = none)
  (mem : (target, Uri.toPath target) ∈ w.diskFiles)
  (ending : Path.endsWith (Uri.toPath target) spelling = true)

include unnamed mem ending

/-- A path at the end of a file's path means the file by its place or by its end: the file has
no logical path, and base names are not tried because the end is found. -/
theorem findImport?_eq_some_iff_place_or_end :
    w.findImport? importer spelling = some target ↔
      (∀ r ∈ w.files, r.logicalPath ≠ some spelling) ∧
        ((importCandidates w.settings importer spelling).findSome? w.fileAt? = some target ∨
          (∀ place ∈ importCandidates w.settings importer spelling, w.fileAt? place = none) ∧
            w.diskFiles.find? (fun file => Path.endsWith file.2 spelling) =
              some (target, Uri.toPath target)) := by
  have named : w.files.find? (·.logicalPath = some spelling) = none ↔
      ∀ r ∈ w.files, r.logicalPath ≠ some spelling := by
    rw [List.find?_eq_none]
    simp
  have nowhere : (importCandidates w.settings importer spelling).findSome? w.fileAt? = none ↔
      ∀ place ∈ importCandidates w.settings importer spelling, w.fileAt? place = none :=
    List.findSome?_eq_none_iff
  rw [findImport?_eq_or, ← named, ← nowhere]
  change (_ : Option Text).or ((List.findSome? w.fileAt? _).or _) = _ ↔ _
  constructor
  · intro h
    rw [Option.or_eq_some_iff, Option.or_eq_some_iff, Option.or_eq_some_iff] at h
    rcases h with logical | ⟨none, place | ⟨free, ends | ⟨missed, -⟩⟩⟩
    · obtain ⟨r, found, same⟩ := Option.map_eq_some_iff.1 logical
      have isNamed : r.logicalPath = some spelling := by simpa using List.find?_some found
      rw [unnamed r (List.mem_of_find?_eq_some found) same] at isNamed
      cases isNamed
    · exact ⟨Option.map_eq_none_iff.1 none, .inl place⟩
    · exact ⟨Option.map_eq_none_iff.1 none, .inr ⟨free, find?_diskFiles_eq ends⟩⟩
    · rw [Option.map_eq_none_iff, List.find?_eq_none] at missed
      exact absurd ending (missed _ mem)
  · rintro ⟨none, place | ⟨free, ends⟩⟩
    · rw [none, Option.map_none, Option.none_or, place, Option.some_or]
    · rw [none, Option.map_none, Option.none_or, free, Option.none_or, ends, Option.map_some,
        Option.some_or]

/-- A file that some path at the end of its own path means is the first one at its place. -/
theorem fileAt?_of_findImport? (h : w.findImport? importer spelling = some target) :
    w.fileAt? (Uri.toPath target) = some target := by
  obtain ⟨-, place | ⟨-, ends⟩⟩ := (findImport?_eq_some_iff_place_or_end unnamed mem ending).1 h
  · obtain ⟨place, -, found⟩ := List.exists_of_findSome?_eq_some place
    rwa [← eq_toPath_of_fileAt? found]
  · have first : w.diskFiles.find? (·.2 = Uri.toPath target) = some (target, Uri.toPath target) :=
      find?_of_narrow (fun file same => by rwa [of_decide_eq_true same]) ends (by simp)
    rw [fileAt?, first]
    rfl

/-- **A path at the end of a file's path means the file unless it is hidden.** -/
theorem findImport?_eq_some_iff_unhidden (first : w.fileAt? (Uri.toPath target) = some target) :
    w.findImport? importer spelling = some target ↔ w.Unhidden importer spelling target := by
  have places := findSome?_eq_some_iff_takeWhile first (fun _ => eq_toPath_of_fileAt?)
    (importCandidates w.settings importer spelling)
  have ends := find?_eq_some_iff_takeWhile (a := (target, Uri.toPath target))
    (p := fun file => Path.endsWith file.2 spelling) ending w.diskFiles
  rw [findImport?_eq_some_iff_place_or_end unnamed mem ending, places, ends]
  simp only [fileAt?_eq_none]
  constructor
  · rintro ⟨logical, ⟨candidate, before⟩ | ⟨free, -, before⟩⟩
    · exact ⟨logical, before, fun absent => absurd candidate absent⟩
    · exact ⟨logical, fun place hplace => free place ((List.takeWhile_sublist _).subset hplace),
        fun _ => before⟩
  · intro h
    refine ⟨h.logical, ?_⟩
    by_cases candidate : Uri.toPath target ∈ importCandidates w.settings importer spelling
    · exact .inl ⟨candidate, h.places⟩
    · refine .inr ⟨fun place hplace => h.places place ?_, mem, h.endings candidate⟩
      rwa [List.takeWhile_eq_self_iff.2 fun other hother => ?_]
      exact decide_eq_true fun same => candidate (same ▸ hother)

end Target

/-- The places that the roots give a path. -/
def rootPlaces (settings : Settings) (path : Text) : List Text :=
  settings.roots.map fun root => Path.clean (Path.join root path)

/-- **The nearest root leads to a file with a cleaned path**, so only the roots in front of it
can hide the file. -/
theorem unhidden_iff_of_clean (unmapped : w.settings.mappings = []) {p : DiskPath}
    (proper : p.Proper) (path : Uri.toPath target = p.text) {root : Text}
    (mem : root ∈ w.settings.roots) (absolute : Path.isAbsolute root = true)
    (normal : Path.Normal root)
    (inside : Path.inside? root (Uri.toPath target) = some spelling) :
    w.Unhidden importer spelling target ↔
      (∀ r ∈ w.files, r.logicalPath ≠ some spelling) ∧
        ∀ place ∈ (rootPlaces w.settings spelling).takeWhile (· ≠ Uri.toPath target),
          ∀ file ∈ w.diskFiles, file.2 ≠ place := by
  have reached : Uri.toPath target ∈ rootPlaces w.settings spelling := by
    rw [path] at inside ⊢
    exact List.mem_map.2 ⟨root, mem, Path.clean_join_of_inside? proper absolute normal inside⟩
  have candidates : importCandidates w.settings importer spelling =
      rootPlaces w.settings spelling ++
        [Path.clean (Path.join (directoryOf importer) spelling)] := by
    rw [importCandidates, unmapped, List.map_append]
    rfl
  have before := takeWhile_append_of_mem reached
    [Path.clean (Path.join (directoryOf importer) spelling)]
  rw [← candidates] at before
  constructor
  · intro h
    exact ⟨h.logical, before ▸ h.places⟩
  · rintro ⟨logical, places⟩
    refine ⟨logical, before ▸ places, fun absent => absurd ?_ absent⟩
    rw [candidates]
    exact List.mem_append_left _ reached

end Workspace

/-- **A suggested import is the shortest one, and it means the file unless another hides it.**
Take a reachable session without mappings and with absolute roots, and a loaded file on disk
without a logical path and without `/google/` in its path.  Suppose that what is left of its
path inside some root means the file.  Then the suggestion is what is left inside a root where
it is shortest, and it means the file exactly if the file is not hidden.  If the path of the
file is clean and the roots are normalized, that is: no loaded file has the suggestion as its
logical path, and none stands at a place that the roots give the suggestion before they give
the file's own path. -/
theorem suggested_import_means_file_unless_hidden (s : Session) (h : s.Reachable)
    (working importer target : Text) (r : FileRecord)
    (unmapped : s.workspace.settings.mappings = [])
    (absolute : ∀ root ∈ s.workspace.settings.roots, Path.isAbsolute root = true)
    (loaded : s.workspace.file? target = some r) (onDisk : Uri.isBuiltin target = false)
    (unnamed : r.logicalPath = none) (outside : ¬("/google/" : Text) <:+: Uri.toPath target)
    (root rest : Text) (configured : root ∈ s.workspace.settings.roots)
    (inside : Path.inside? root (Uri.toPath target) = some rest)
    (means : ((Session.resolveImport importer rest).run s).1 = some target) :
    ∃ spelling, s.workspace.suggestImport? working importer target = some spelling ∧
      (∃ nearest ∈ s.workspace.settings.roots,
        Path.inside? nearest (Uri.toPath target) = some spelling) ∧
      (∀ other ∈ s.workspace.settings.roots, ∀ longer,
        Path.inside? other (Uri.toPath target) = some longer → spelling.length ≤ longer.length) ∧
      (((Session.resolveImport importer spelling).run s).1 = some target ↔
        s.workspace.Unhidden importer spelling target) ∧
      ∀ p : DiskPath, p.Proper → Uri.toPath target = p.text →
        (∀ root ∈ s.workspace.settings.roots, Path.Normal root) →
        (((Session.resolveImport importer spelling).run s).1 = some target ↔
          (∀ r ∈ s.workspace.files, r.logicalPath ≠ some spelling) ∧
            ∀ place ∈ (Workspace.rootPlaces s.workspace.settings spelling).takeWhile (· ≠ p.text),
              ∀ file ∈ s.workspace.diskFiles, file.2 ≠ place) := by
  have resolved := fun path => Session.value_resolveImport importer path h.faithful
  have mem := Workspace.mem_diskFiles loaded onDisk
  have allUnnamed : ∀ r' ∈ s.workspace.files, r'.uri = target → r'.logicalPath = none := by
    intro r' hr' same
    have uri : r.uri = target := by simpa using List.find?_some loaded
    have one : r' = r := List.inj_on_of_nodup_map h.indexed.distinct hr'
      (List.mem_of_find?_eq_some loaded) (same.trans uri.symm)
    rw [one, unnamed]
  have first : s.workspace.fileAt? (Uri.toPath target) = some target := by
    rw [resolved, Path.normalize_of_inside? (Path.normal_toPath target) inside] at means
    exact Workspace.fileAt?_of_findImport? allUnnamed mem (Path.endsWith_of_inside? inside) means
  obtain ⟨spelling, shortest, ⟨nearest, hnearest, left⟩, least⟩ :=
    Workspace.exists_insideRoots? configured inside
  have meaning : ((Session.resolveImport importer spelling).run s).1 = some target ↔
      s.workspace.Unhidden importer spelling target := by
    rw [resolved, Path.normalize_of_inside? (Path.normal_toPath target) left]
    exact Workspace.findImport?_eq_some_iff_unhidden allUnnamed mem (Path.endsWith_of_inside? left)
      first
  refine ⟨spelling, Workspace.suggestImport?_eq_insideRoots? unmapped loaded onDisk unnamed outside
    shortest, ⟨nearest, hnearest, left⟩, least, meaning, fun p proper path normal => ?_⟩
  rw [meaning, Workspace.unhidden_iff_of_clean unmapped proper path hnearest
    (absolute nearest hnearest) (normal nearest hnearest) left, path]

namespace NestedRoots

/-- Two files of one name, one in a directory and one in a directory inside it. -/
def session (roots : List Text) : Session :=
  ((Session.empty.configure (.importPaths roots)).update
    (.ofText "file:///a/x.proto" "")).update (.ofText "file:///a/b/x.proto" "")

theorem reachable_session (roots : List Text) : (session roots).Reachable :=
  ((Session.Reachable.new.configure _).update _ _ _ _).update _ _ _ _

/-- Roots are normalized when they are set. -/
theorem normal_roots (roots : List Text) :
    ∀ root ∈ (session roots).workspace.settings.roots, Path.Normal root := by
  intro root mem
  have same : (session roots).workspace.settings.roots = roots.map Path.normalize :=
    List.append_nil _
  rw [same] at mem
  obtain ⟨path, -, rfl⟩ := List.mem_map.1 mem
  exact Path.normal_normalize path

/-- With the inner directory first, its file is not hidden and is what the suggestion means. -/
theorem inner_root_first_is_found :
    ∃ spelling, (session ["/a/b", "/a"]).workspace.suggestImport? "/" "file:///a/main.proto"
        "file:///a/b/x.proto" = some spelling ∧
      ((Session.resolveImport "file:///a/main.proto" spelling).run (session ["/a/b", "/a"])).1 =
        some ("file:///a/b/x.proto" : Text) := by
  have reachable := reachable_session ["/a/b", "/a"]
  have means : ((Session.resolveImport "file:///a/main.proto" "b/x.proto").run
      (session ["/a/b", "/a"])).1 = some ("file:///a/b/x.proto" : Text) := by
    rw [Session.value_resolveImport _ _ reachable.faithful]
    decide +kernel
  obtain ⟨spelling, suggested, -, -, -, clean⟩ := suggested_import_means_file_unless_hidden
    (session ["/a/b", "/a"]) reachable "/" "file:///a/main.proto" "file:///a/b/x.proto"
    (.ofText "file:///a/b/x.proto" "") rfl (by decide +kernel) rfl (by decide +kernel) rfl
    (by decide +kernel) "/a" "b/x.proto" (by decide +kernel) (by decide +kernel) means
  have short : (session ["/a/b", "/a"]).workspace.suggestImport? "/" "file:///a/main.proto"
      "file:///a/b/x.proto" = some ("x.proto" : Text) := by decide +kernel
  obtain rfl := Option.some.inj (suggested.symm.trans short)
  exact ⟨_, suggested, (clean ["a", "b", "x.proto"] (by decide) (by decide +kernel)
    (normal_roots _)).2 (by decide +kernel)⟩

/-- **The suggestion may mean another file.**  With the outer directory first, the path from
the outer directory means the inner file, but the suggestion is shorter and means the outer
one. -/
theorem suggestion_means_outer_file :
    (session ["/a", "/a/b"]).Reachable ∧
    (session ["/a", "/a/b"]).workspace.settings.mappings = [] ∧
    (∀ root ∈ (session ["/a", "/a/b"]).workspace.settings.roots, Path.isAbsolute root = true) ∧
    (session ["/a", "/a/b"]).workspace.file? "file:///a/b/x.proto" =
      some (.ofText "file:///a/b/x.proto" "") ∧
    Uri.isBuiltin "file:///a/b/x.proto" = false ∧
    (FileRecord.ofText "file:///a/b/x.proto" "").logicalPath = none ∧
    ¬("/google/" : Text) <:+: Uri.toPath "file:///a/b/x.proto" ∧
    (∃ root ∈ (session ["/a", "/a/b"]).workspace.settings.roots,
      Path.inside? root (Uri.toPath "file:///a/b/x.proto") = some ("b/x.proto" : Text)) ∧
    ((Session.resolveImport "file:///a/main.proto" "b/x.proto").run (session ["/a", "/a/b"])).1 =
      some ("file:///a/b/x.proto" : Text) ∧
    (session ["/a", "/a/b"]).workspace.suggestImport? "/" "file:///a/main.proto"
      "file:///a/b/x.proto" = some ("x.proto" : Text) ∧
    ((Session.resolveImport "file:///a/main.proto" "x.proto").run (session ["/a", "/a/b"])).1 =
      some ("file:///a/x.proto" : Text) := by
  have faithful := (reachable_session ["/a", "/a/b"]).faithful
  rw [Session.value_resolveImport _ _ faithful, Session.value_resolveImport _ _ faithful]
  refine ⟨reachable_session _, rfl, by decide +kernel, rfl, by decide +kernel, rfl,
    by decide +kernel, by decide +kernel, by decide +kernel, by decide +kernel, by decide +kernel⟩

end NestedRoots

end ProtoAtlas
