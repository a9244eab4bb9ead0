/-
# A suggested import is found

A suggestion comes from one of five sources: the end of the path from `google/` on, a mapping,
the nearest root, the way from the directory of the importing file, and the bare name.  Each
of them keeps the base name of the file (`Workspace.exists_suggestImport?`).  An import path is
looked up in ways of its own: by logical path, at the places of the settings, by the end of a
path, by base name.  The last three lead to files with the base name of the import path only
(`Workspace.base_of_mem_importCandidates`, `Path.base_eq_of_endsWith`), and the last one finds a
file if there is any.  So no source has to be matched with the way that finds its suggestion.

The one exception is the way from a directory to itself, which is `.`.  Whether two paths are
the same for that purpose is not decided by cleaning them: it keeps two slashes at the start of
a path, and the way from `/a` to `//a` is `.` all the same
(`TwoSlashes.directory_itself_is_not_found`).
-/

import ProtoAtlas.Proofs.Workspace.LoadOrder
import ProtoAtlas.Proofs.Workspace.Suggested

namespace ProtoAtlas

/-- A list that is built up from elements one by one holds none but these. -/
theorem mem_of_mem_foldl {α : Type} {f : List α → α → List α} {a : α}
    (step : ∀ built x, a ∈ f built x → a = x ∨ a ∈ built) {xs built : List α}
    (h : a ∈ xs.foldl f built) : a ∈ xs ∨ a ∈ built := by
  induction xs generalizing built with
  | nil => exact .inr h
  | cons x rest ih =>
    rcases ih h with mem | mem
    · exact .inl (List.mem_cons_of_mem x mem)
    · exact (step built x mem).imp_left fun same => List.mem_cons.2 (.inl same)

/-! ### Base names -/

namespace Path

theorem slash_notMem_base (path : Text) : slash ∉ base path := by
  intro h
  rw [base, List.mem_reverse] at h
  exact absurd (List.all_eq_true.1 List.all_takeWhile _ h) (by simp)

theorem base_of_notMem {t : Text} (h : slash ∉ t) : base t = t := by
  have all : ∀ c ∈ t.reverse, decide (c ≠ slash) = true := fun c hc =>
    decide_eq_true fun same => h (same ▸ List.mem_reverse.1 hc)
  rw [base, List.takeWhile_eq_self_iff.2 all, List.reverse_reverse]

theorem base_slash (t : Text) : base (slash :: t) = base t := base_append_slash [] t

/-- A path is its base name, or ends with a slash and its base name. -/
theorem eq_base_or_append (path : Text) :
    path = base path ∨ ∃ front, path = front ++ slash :: base path := by
  have whole : path = path.dropEndWhile (· ≠ slash) ++ base path := by
    rw [Text.dropEndWhile, base, ← List.reverse_append, List.takeWhile_append_dropWhile,
      List.reverse_reverse]
  rcases List.eq_nil_or_concat' (path.dropEndWhile (· ≠ slash)) with empty | ⟨front, c, split⟩
  · rw [empty, List.nil_append] at whole
    exact .inl whole
  · have isSlash : c = slash := by
      have last := Text.not_of_getLast?_dropEndWhile (p := (· ≠ slash)) (t := path) (c := c)
        (by rw [split, List.getLast?_concat])
      simpa using last
    rw [split, isSlash, List.append_assoc, List.singleton_append] at whole
    exact .inr ⟨front, whole⟩

theorem exists_splitOn_base (path : Text) :
    ∃ before, Text.splitOn slash path = before ++ [base path] := by
  have last := Text.splitOn_of_notMem (slash_notMem_base path)
  rcases eq_base_or_append path with whole | ⟨front, split⟩
  · exact ⟨[], by rw [List.nil_append, ← last, ← whole]⟩
  · exact ⟨Text.splitOn slash front, by rw [← last, ← Text.splitOn_append_cons, ← split]⟩

/-- A base name that is a name stays the last part of its path when the path is cleaned. -/
theorem exists_cleanParts_base {path : Text} (name : DiskPath.IsName (base path)) :
    ∃ before, cleanParts path = before ++ [base path] := by
  obtain ⟨before, split⟩ := exists_splitOn_base path
  have added : ∀ absolute parts, addPart absolute parts (base path) = base path :: parts := by
    intro absolute parts
    unfold addPart
    rw [if_neg (by simp [name.nonempty, name.notHere]), if_pos name.notUp]
  exact ⟨_, by rw [cleanParts, split, List.foldl_append, List.foldl_cons, List.foldl_nil, added,
    List.reverse_cons]⟩

theorem mem_splitOn_of_mem_cleanParts {path part : Text} (h : part ∈ cleanParts path) :
    part ∈ Text.splitOn slash path := by
  refine (mem_of_mem_foldl (fun parts piece mem => ?_) (List.mem_reverse.1 h)).resolve_right
    List.not_mem_nil
  unfold addPart at mem
  split at mem
  · exact .inr mem
  · split at mem
    · exact List.mem_cons.1 mem
    · next notUp =>
      have isUp : piece = up := by simpa using notUp
      split at mem
      · split at mem
        · cases mem
        · exact .inl ((List.mem_singleton.1 mem).trans isUp.symm)
      · split at mem
        · exact (List.mem_cons.1 mem).imp_left (·.trans isUp.symm)
        · exact .inr (List.mem_cons_of_mem _ mem)

/-- The last part that is spelled is the base name. -/
theorem base_join_concat (before : List Text) {part : Text} (h : slash ∉ part) :
    base (Text.join [slash] (before ++ [part])) = part := by
  have text := DiskPath.text_concat before part
  rw [DiskPath.text] at text
  rw [← base_slash, text, base_append_slash, base_of_notMem h]

theorem base_join (directory path : Text) : base (join directory path) = base path := by
  unfold join
  split
  · rfl
  · split
    · next open_ =>
      rw [Bool.or_eq_true, List.isEmpty_iff, decide_eq_true_eq] at open_
      rcases open_ with rfl | last
      · rfl
      · obtain ⟨front, rfl⟩ := List.getLast?_eq_some_iff.1 last
        rw [List.append_assoc, List.singleton_append, base_append_slash]
    · exact base_append_slash directory path

/-- Cleaning keeps a base name that is a name. -/
theorem base_clean {path : Text} (name : DiskPath.IsName (base path)) :
    base (clean path) = base path := by
  obtain ⟨before, parts⟩ := exists_cleanParts_base name
  have slashes : ∀ (n : Nat) (t : Text), base (List.replicate n slash ++ t) = base t := by
    intro n t
    cases n with
    | zero => rfl
    | succ n =>
      rw [List.replicate_succ', List.append_assoc, List.singleton_append, base_append_slash]
  have cleaned : base (List.replicate (rootSlashes path) slash ++
      Text.join [slash] (cleanParts path)) = base path := by
    rw [slashes, parts, base_join_concat _ name.noSlash]
  unfold clean
  split
  · next empty =>
    rw [empty] at cleaned
    exact absurd cleaned.symm name.nonempty
  · exact cleaned

theorem base_of_inside? {directory path rest : Text} (h : inside? directory path = some rest) :
    base rest = base path :=
  (base_eq_of_endsWith (endsWith_of_inside? h)).symm

/-- A path with a base name does not end in a slash. -/
theorem normal_of_base_ne_nil {path : Text} (forward : CodePoint.ofChar '\\' ∉ path)
    (named : base path ≠ []) : Normal path := by
  refine ⟨forward, fun _ last => named ?_⟩
  obtain ⟨front, rfl⟩ := List.getLast?_eq_some_iff.1 last
  exact base_append_slash front []

/-! ### The way to a file -/

/-- Two paths lead to the same place from a working directory: both or neither start at the
root, and they have the same parts after cleaning.  Two slashes at the start count as one. -/
def SamePlace (working a b : Text) : Prop :=
  isAbsolute a = isAbsolute b ∧ cleanParts (join working a) = cleanParts (join working b)

instance (working a b : Text) : Decidable (SamePlace working a b) :=
  inferInstanceAs (Decidable (_ ∧ _))

/-- A path that is read from a directory has no character that neither of them has, slashes
apart. -/
theorem mem_of_mem_join {c : CodePoint} {directory path : Text} (h : c ∈ join directory path) :
    c = slash ∨ c ∈ directory ∨ c ∈ path := by
  unfold join at h
  split at h
  · exact .inr (.inr h)
  · split at h
    · exact .inr (List.mem_append.1 h)
    · rcases List.mem_append.1 h with h | h
      · exact .inr (.inl h)
      · exact (List.mem_cons.1 h).imp_right .inr

theorem exists_dropCommon (as bs : List Text) : ∃ common,
    as = common ++ (dropCommon as bs).1 ∧ bs = common ++ (dropCommon as bs).2 := by
  fun_induction dropCommon as bs with
  | case1 as b bs ih =>
    obtain ⟨common, first, second⟩ := ih
    exact ⟨b :: common, congrArg (b :: ·) first, congrArg (b :: ·) second⟩
  | case2 a as b bs different => exact ⟨[], rfl, rfl⟩
  | case3 as bs => exact ⟨[], rfl, rfl⟩

theorem mem_text_iff {c : CodePoint} (h : c ≠ slash) {p : DiskPath} :
    c ∈ p.text ↔ ∃ part ∈ p, c ∈ part := by
  cases p with
  | nil => simp [DiskPath.text, Text.join, List.intercalate, h]
  | cons part rest =>
    rw [DiskPath.text_of_ne_nil (by simp), DiskPath.spelled, List.mem_flatMap]
    simp [h]

/-- Parts of a path bring no character with them, slashes apart. -/
theorem mem_of_mem_join_parts {c : CodePoint} (h : c ≠ slash) {path : Text} {parts : List Text}
    (sub : ∀ part ∈ parts, part ∈ cleanParts path) (mem : c ∈ Text.join [slash] parts) :
    c ∈ path := by
  obtain ⟨part, hpart, inside⟩ := (mem_text_iff h (p := parts)).1 (List.mem_cons_of_mem _ mem)
  have piece := mem_splitOn_of_mem_cleanParts (sub part hpart)
  have whole : c ∈ DiskPath.text (Text.splitOn slash path) :=
    (mem_text_iff h).2 ⟨part, piece, inside⟩
  rw [DiskPath.text, Text.join_splitOn] at whole
  exact (List.mem_cons.1 whole).resolve_left h

/-- **A way that does not go up ends with the name of the file.** -/
theorem base_of_wayFrom? {working directory path way : Text} (name : DiskPath.IsName (base path))
    (elsewhere : cleanParts (join working path) ≠ cleanParts (join working directory))
    (found : wayFrom? working directory path = some way) (level : ¬ up.isPrefixOf way = true) :
    base way = base path ∧ ∀ c ∈ way, c = slash ∨ c ∈ working ∨ c ∈ path := by
  obtain ⟨common, ups, downs⟩ := exists_dropCommon (cleanParts (join working directory))
    (cleanParts (join working path))
  have nonempty : path ≠ [] := by
    rintro rfl
    exact name.nonempty rfl
  have joined : base (join working path) = base path := base_join working path
  rw [wayFrom?, if_neg (by simpa using nonempty)] at found
  dsimp only at found
  generalize dropCommon (cleanParts (join working directory)) (cleanParts (join working path)) =
    left at ups downs found
  obtain ⟨climbed, rest⟩ := left
  dsimp only at ups downs found
  cases climbed with
  | cons part more =>
    -- The way starts with `..`.
    rw [List.map_cons, List.cons_append] at found
    have start : ∃ tail, way = up ++ tail := by
      have spelled := DiskPath.text_of_ne_nil (List.cons_ne_nil up (more.map (fun _ => up) ++ rest))
      rw [DiskPath.text, DiskPath.spelled, List.flatMap_cons, List.cons_append] at spelled
      exact ⟨_, (Option.some.inj found).symm.trans (List.cons.inj spelled).2⟩
    obtain ⟨tail, rfl⟩ := start
    exact absurd (List.isPrefixOf_iff_prefix.2 (List.prefix_append up tail)) level
  | nil =>
    rw [List.map_nil, List.nil_append] at found
    rw [List.append_nil] at ups
    rcases List.eq_nil_or_concat' rest with rfl | ⟨before, last, rfl⟩
    · exact absurd (downs.trans (by rw [List.append_nil, ups])) elsewhere
    · obtain ⟨front, parts⟩ := exists_cleanParts_base (joined.symm ▸ name)
      rw [parts, joined, ← List.append_assoc] at downs
      have same : base path = last := by simpa using (List.append_inj' downs rfl).2
      have way' : way = Text.join [slash] (before ++ [last]) := by
        split at found
        · next empty => simp at empty
        · exact (Option.some.inj found).symm
      refine ⟨by rw [way', base_join_concat _ (same ▸ name.noSlash), same], fun c mem => ?_⟩
      by_cases isSlash : c = slash
      · exact .inl isSlash
      · refine mem_of_mem_join (mem_of_mem_join_parts isSlash (fun part hpart => ?_) (way' ▸ mem))
        rw [parts, joined, downs, List.append_assoc]
        exact List.mem_append_right _ hpart

end Path

/-! ### Settings without backslashes -/

namespace PathMapping

theorem mem_of_mem_table {mappings : List PathMapping} {m : PathMapping}
    (h : m ∈ table mappings) : m ∈ mappings := by
  refine (mem_of_mem_foldl (fun earlier new mem => ?_) h).resolve_right List.not_mem_nil
  unfold put at mem
  split at mem
  · obtain ⟨old, hold, same⟩ := List.mem_map.1 mem
    split at same
    · exact .inl same.symm
    · exact .inr (same ▸ hold)
  · exact (List.mem_append.1 mem).symm.imp_left List.mem_singleton.1

theorem forward_normalize (m : PathMapping) : CodePoint.ofChar '\\' ∉ m.normalize.virtual := by
  intro h
  have sub : ∀ t : Text, (t.strip (· = Path.slash)).Subset t := fun t c hc => by
    have kept := (List.dropWhile_sublist _).subset (List.mem_reverse.1 hc)
    exact (List.dropWhile_sublist _).subset (List.mem_reverse.1 kept)
  exact (Path.normal_normalize m.virtual).forward (sub _ h)

end PathMapping

/-- Virtual paths have no backslashes. -/
def Settings.Forward (s : Settings) : Prop :=
  ∀ m ∈ s.mappings, CodePoint.ofChar '\\' ∉ m.virtual

theorem Settings.Forward.set {s : Settings} (h : s.Forward) (change : Change) :
    (s.set change).Forward := by
  cases change with
  | importPaths paths => exact h
  | workspaceRoots roots => exact h
  | mappings mappings =>
    intro m mem
    obtain ⟨written, -, rfl⟩ := List.mem_map.1 (PathMapping.mem_of_mem_table mem)
    exact written.forward_normalize

/-- **In every reachable session virtual paths have no backslashes.** -/
theorem Session.Reachable.forward {s : Session} (h : s.Reachable) : s.workspace.settings.Forward :=
  h.invariant (·.settings.Forward) (fun _ none => absurd none List.not_mem_nil)
    (fun _ _ _ _ _ forward => forward) (fun _ _ forward => forward)
    fun _ change forward => forward.set change

namespace Workspace

/-! ### What is suggested -/

/-- A spelling keeps the base name of a path and has no backslash. -/
structure Names (spelling path : Text) : Prop where
  base : Path.base spelling = Path.base path
  forward : CodePoint.ofChar '\\' ∉ spelling

variable {path : Text}

theorem names_base (forward : CodePoint.ofChar '\\' ∉ path) : Names (Path.base path) path where
  base := Path.base_of_notMem (Path.slash_notMem_base path)
  forward := fun mem => by
    rw [Path.base, List.mem_reverse] at mem
    exact forward (List.mem_reverse.1 ((List.takeWhile_sublist _).subset mem))

theorem names_append (forward : CodePoint.ofChar '\\' ∉ path) {start rest : Text}
    (split : path = start ++ Path.slash :: rest) : Names rest path where
  base := by rw [split, Path.base_append_slash]
  forward := fun mem => forward (by simp [split, mem])

theorem names_inside? (forward : CodePoint.ofChar '\\' ∉ path) {directory rest : Text}
    (h : Path.inside? directory path = some rest) : Names rest path := by
  obtain ⟨front, split, -⟩ := Path.split_of_inside? h
  exact names_append forward split

theorem lastOccurrence?_eq_some {pattern t tail : Text}
    (h : lastOccurrence? pattern t = some tail) : pattern <+: tail ∧ tail <:+ t := by
  induction t with
  | nil => cases h
  | cons c cs ih =>
    unfold lastOccurrence? at h
    split at h
    · next later =>
      obtain rfl := Option.some.inj h
      exact ⟨(ih later).1, (ih later).2.trans (List.suffix_cons c cs)⟩
    · split at h
      · next start =>
        obtain rfl := Option.some.inj h
        exact ⟨List.isPrefixOf_iff_prefix.1 start, List.suffix_refl _⟩
      · cases h

theorem exists_of_insideRoots? {settings : Settings} {rest : Text}
    (h : insideRoots? settings path = some rest) :
    ∃ root ∈ settings.roots, Path.inside? root path = some rest := by
  have each : ∀ t, t ∈ settings.roots.filterMap (Path.inside? · path) ↔
      ∃ root ∈ settings.roots, Path.inside? root path = some t := fun t => List.mem_filterMap
  unfold insideRoots? at h
  rw [← each]
  generalize settings.roots.filterMap (Path.inside? · path) = ts at h
  cases ts with
  | nil => cases h
  | cons b ts =>
    obtain ⟨t, run, mem, -⟩ := foldl_shorter ts b
    obtain rfl := Option.some.inj (run.symm.trans h)
    exact mem

theorem exists_nearby? {working importer : Text} (plain : CodePoint.ofChar '\\' ∉ working)
    (forward : CodePoint.ofChar '\\' ∉ path) (name : DiskPath.IsName (Path.base path))
    (elsewhere : ¬ Path.SamePlace working path (directoryOf importer)) :
    ∃ spelling, nearby? working importer path = some spelling ∧ Names spelling path := by
  unfold nearby?
  dsimp only
  split
  · exact ⟨_, rfl, names_base forward⟩
  · next alike =>
    rw [Bool.or_eq_true, not_or, bne_iff_ne, Classical.not_not] at alike
    have nonempty : path.isEmpty = false := by
      cases path with
      | nil => exact absurd rfl name.nonempty
      | cons c cs => rfl
    obtain ⟨way, found⟩ : ∃ way,
        Path.wayFrom? working (directoryOf importer) path = some way := by
      unfold Path.wayFrom?
      rw [if_neg (by simp [nonempty])]
      dsimp only
      split
      · exact ⟨_, rfl⟩
      · exact ⟨_, rfl⟩
    rw [found, Option.map_some]
    refine ⟨_, rfl, ?_⟩
    split
    · exact names_base forward
    · next level =>
      obtain ⟨base, chars⟩ := Path.base_of_wayFrom? name (fun same => elsewhere ⟨alike.2, same⟩)
        found level
      refine ⟨base, fun mem => ?_⟩
      rcases chars _ mem with isSlash | mem | mem
      · exact absurd isSlash (by decide)
      · exact plain mem
      · exact forward mem

/-- **A suggestion keeps the base name of the file**, whichever source it comes from. -/
theorem exists_suggestImport? {w : Workspace} {working importer target : Text} {r : FileRecord}
    (virtual : w.settings.Forward) (plain : CodePoint.ofChar '\\' ∉ working)
    (loaded : w.file? target = some r) (onDisk : Uri.isBuiltin target = false)
    (unnamed : r.logicalPath = none) (name : DiskPath.IsName (Path.base (Uri.toPath target)))
    (elsewhere : ¬ Path.SamePlace working (Uri.toPath target) (directoryOf importer)) :
    ∃ spelling, w.suggestImport? working importer target = some spelling ∧
      Names spelling (Uri.toPath target) := by
  have unlisted : (w.file? target).bind (·.logicalPath) = none := by rw [loaded]; exact unnamed
  have forward := (Path.normal_toPath target).forward
  simp only [suggestImport?, Uri.builtinPath?_eq_none onDisk, unlisted]
  split
  · next tail found =>
    obtain ⟨⟨rest, start⟩, ⟨front, split⟩⟩ := lastOccurrence?_eq_some found
    have slash : tail = Path.slash :: tail.tail := by
      rw [← start]
      rfl
    exact ⟨_, rfl, names_append forward (by rw [← slash, split])⟩
  · split
    · next suggestion found =>
      obtain ⟨m, mem, mapped⟩ := List.exists_of_findSome?_eq_some found
      obtain ⟨rest, inside, rfl⟩ := Option.map_eq_some_iff.1 mapped
      have names := names_inside? forward inside
      refine ⟨_, rfl, (Path.base_append_slash _ _).trans names.base, fun back => ?_⟩
      rcases List.mem_append.1 back with back | back
      · exact virtual m mem back
      · exact names.forward ((List.mem_cons.1 back).resolve_left (by decide))
    · next rest found =>
      obtain ⟨root, -, inside⟩ := exists_of_insideRoots? found
      exact ⟨_, rfl, names_inside? forward inside⟩
    · exact exists_nearby? plain forward name elsewhere

/-! ### What is found -/

variable {w : Workspace} {importer spelling : Text}

/-- **All places of an import path have its base name.** -/
theorem base_of_mem_importCandidates {settings : Settings} {place : Text}
    (name : DiskPath.IsName (Path.base spelling))
    (mem : place ∈ importCandidates settings importer spelling) :
    Path.base place = Path.base spelling := by
  rcases List.mem_append.1 mem with mem | mem
  · obtain ⟨m, -, mapped⟩ := List.mem_filterMap.1 mem
    obtain ⟨rest, inside, rfl⟩ := Option.map_eq_some_iff.1 mapped
    rw [Path.base_join, Path.base_of_inside? inside]
  · obtain ⟨root, -, rfl⟩ := List.mem_map.1 mem
    have joined := Path.base_join root spelling
    rw [Path.base_clean (joined ▸ name), joined]

theorem exists_of_find?_diskFiles {p : Text × Text → Bool} {uri : Text}
    (found : (w.diskFiles.find? p).map (·.1) = some uri) :
    ∃ r ∈ w.files, r.uri = uri ∧ p (uri, Uri.toPath uri) = true := by
  obtain ⟨file, hit, rfl⟩ := Option.map_eq_some_iff.1 found
  have fits := List.find?_some hit
  obtain ⟨r, loaded, rfl⟩ := List.mem_map.1 (List.mem_of_find?_eq_some hit)
  exact ⟨r, (List.mem_filter.1 loaded).1, rfl, fits⟩

/-- **An import path is found if a file has its base name**, and what is found has it too or is
named by the import path. -/
theorem exists_findImport? (importer : Text) (name : DiskPath.IsName (Path.base spelling))
    {file : Text × Text} (mem : file ∈ w.diskFiles) (same : Path.base file.2 = Path.base spelling) :
    ∃ found ∈ w.files, w.findImport? importer spelling = some found.uri ∧
      (Path.base (Uri.toPath found.uri) = Path.base spelling ∨
        found.logicalPath = some spelling) := by
  have answered : (w.findImport? importer spelling).isSome = true := by
    have last : (w.diskFiles.find? fun file =>
        Path.base file.2 = Path.base spelling).isSome = true :=
      List.find?_isSome.2 ⟨file, mem, decide_eq_true same⟩
    rw [findImport?_eq_or, Option.isSome_or, Option.isSome_or, Option.isSome_or, Option.isSome_map,
      Option.isSome_map, Option.isSome_map, last]
    simp
  obtain ⟨uri, found⟩ := Option.isSome_iff_exists.1 answered
  rw [found]
  rw [findImport?_eq_or, Option.or_eq_some_iff, Option.or_eq_some_iff, Option.or_eq_some_iff]
    at found
  rcases found with logical | ⟨-, place | ⟨-, ends | ⟨-, base⟩⟩⟩
  · obtain ⟨r, hit, rfl⟩ := Option.map_eq_some_iff.1 logical
    have named := List.find?_some hit
    exact ⟨r, List.mem_of_find?_eq_some hit, rfl, .inr (of_decide_eq_true named)⟩
  · obtain ⟨place, candidate, hit⟩ := List.exists_of_findSome?_eq_some place
    obtain ⟨r, loaded, rfl, stands⟩ := exists_of_find?_diskFiles hit
    refine ⟨r, loaded, rfl, .inl ?_⟩
    rw [← base_of_mem_importCandidates name candidate, ← of_decide_eq_true stands]
  · obtain ⟨r, loaded, rfl, ends⟩ := exists_of_find?_diskFiles ends
    exact ⟨r, loaded, rfl, .inl (Path.base_eq_of_endsWith ends)⟩
  · obtain ⟨r, loaded, rfl, base⟩ := exists_of_find?_diskFiles base
    exact ⟨r, loaded, rfl, .inl (of_decide_eq_true base)⟩

end Workspace

/-- **A suggested import is never unresolved.**  Take a reachable session, a working directory
without backslashes, any importing file, and a loaded file on disk without a logical path whose
base name is not empty, `.` or `..`.  Suppose that its path does not lead to the directory of
the importing file; two slashes at the start of a path count as one there.  Then there is a
suggestion, it has the base name of the file and no backslash, and it means a loaded file that
has this base name, or that has the suggestion as its logical path.  If the file is the only one
of that kind, the suggestion means it. -/
theorem suggested_import_is_found (s : Session) (h : s.Reachable) (working : Text)
    (plain : CodePoint.ofChar '\\' ∉ working) (importer target : Text) (r : FileRecord)
    (loaded : s.workspace.file? target = some r) (onDisk : Uri.isBuiltin target = false)
    (unnamed : r.logicalPath = none) (nonempty : Path.base (Uri.toPath target) ≠ [])
    (notHere : Path.base (Uri.toPath target) ≠ Path.here)
    (notUp : Path.base (Uri.toPath target) ≠ Path.up)
    (elsewhere : ¬ Path.SamePlace working (Uri.toPath target) (Workspace.directoryOf importer)) :
    ∃ spelling, s.workspace.suggestImport? working importer target = some spelling ∧
      Path.base spelling = Path.base (Uri.toPath target) ∧ CodePoint.ofChar '\\' ∉ spelling ∧
      (∃ found ∈ s.workspace.files,
        ((Session.resolveImport importer spelling).run s).1 = some found.uri ∧
        (Path.base (Uri.toPath found.uri) = Path.base (Uri.toPath target) ∨
          found.logicalPath = some spelling)) ∧
      ((∀ other ∈ s.workspace.files,
          Path.base (Uri.toPath other.uri) = Path.base (Uri.toPath target) ∨
            other.logicalPath = some spelling → other.uri = target) →
        ((Session.resolveImport importer spelling).run s).1 = some target) := by
  have name : DiskPath.IsName (Path.base (Uri.toPath target)) :=
    ⟨nonempty, notHere, notUp, Path.slash_notMem_base _⟩
  obtain ⟨spelling, suggested, base, forward⟩ :=
    Workspace.exists_suggestImport? h.forward plain loaded onDisk unnamed name elsewhere
  have normal := Path.normal_of_base_ne_nil forward (base ▸ nonempty)
  have resolved : ((Session.resolveImport importer spelling).run s).1 =
      s.workspace.findImport? importer spelling := by
    rw [Session.value_resolveImport importer spelling h.faithful, normal.normalize_eq]
  obtain ⟨found, mem, means, fits⟩ := Workspace.exists_findImport? importer (base ▸ name)
    (Workspace.mem_diskFiles loaded onDisk) base.symm
  rw [← resolved] at means
  rw [base] at fits
  refine ⟨spelling, suggested, base, forward, ⟨found, mem, means, fits⟩, fun only => ?_⟩
  rw [means, only found mem fits]

namespace TwoSlashes

/-- A session with a mapping and two files; a doubled slash and `..` stand in the path of the
second one. -/
def mapped : Session :=
  ((Session.empty.configure (.mappings [⟨"v\\w/", "/d/"⟩])).update
    (.ofText "file:///d/sub/y.proto" "")).update (.ofText "file:///d//sub/../x.proto" "")

/-- A session with one file, at a path that starts with two slashes. -/
def session : Session := Session.empty.update (.ofText "file:////a/b" "")

theorem reachable_mapped : mapped.Reachable :=
  ((Session.Reachable.new.configure _).update _ _ _ none).update _ _ _ none

/-- The virtual path is suggested for the second file, and it means that file. -/
theorem mapped_file_is_found : mapped.Reachable ∧
    mapped.workspace.file? "file:///d//sub/../x.proto" =
      some (.ofText "file:///d//sub/../x.proto" "") ∧
    Uri.isBuiltin "file:///d//sub/../x.proto" = false ∧
    (FileRecord.ofText "file:///d//sub/../x.proto" "").logicalPath = none ∧
    Path.base (Uri.toPath "file:///d//sub/../x.proto") = "x.proto" ∧
    ¬ Path.SamePlace "/" (Uri.toPath "file:///d//sub/../x.proto")
      (Workspace.directoryOf "file:///d/main.proto") ∧
    mapped.workspace.suggestImport? "/" "file:///d/main.proto" "file:///d//sub/../x.proto" =
      some ("v/w//sub/../x.proto" : Text) ∧
    ((Session.resolveImport "file:///d/main.proto" "v/w//sub/../x.proto").run mapped).1 =
      some ("file:///d//sub/../x.proto" : Text) := by
  have onDisk : Uri.isBuiltin "file:///d//sub/../x.proto" = false := by decide +kernel
  have name : Path.base (Uri.toPath "file:///d//sub/../x.proto") = "x.proto" := by decide +kernel
  have elsewhere : ¬ Path.SamePlace "/" (Uri.toPath "file:///d//sub/../x.proto")
      (Workspace.directoryOf "file:///d/main.proto") := by decide +kernel
  have virtual : mapped.workspace.suggestImport? "/" "file:///d/main.proto"
      "file:///d//sub/../x.proto" = some ("v/w//sub/../x.proto" : Text) := by decide +kernel
  obtain ⟨spelling, suggested, -, -, -, only⟩ := suggested_import_is_found mapped reachable_mapped
    "/" (by decide) "file:///d/main.proto" "file:///d//sub/../x.proto" _ rfl onDisk rfl
    (by rw [name]; decide) (by rw [name]; decide) (by rw [name]; decide) elsewhere
  obtain rfl := Option.some.inj (suggested.symm.trans virtual)
  refine ⟨reachable_mapped, rfl, onDisk, rfl, name, elsewhere, suggested,
    only fun other mem fits => ?_⟩
  have files : mapped.workspace.files =
      [.ofText "file:///d/sub/y.proto" "", .ofText "file:///d//sub/../x.proto" ""] := rfl
  rw [files] at mem
  rcases List.mem_cons.1 mem with rfl | mem
  · exact absurd fits (by decide +kernel)
  · rw [List.mem_singleton.1 mem]
    rfl

/-- **The directory of the importing file is no import.**  Cleaned, the path of the file and the
directory differ by a slash at the start, and yet the suggestion is `.`, which means nothing. -/
theorem directory_itself_is_not_found : session.Reachable ∧
    session.workspace.file? "file:////a/b" = some (.ofText "file:////a/b" "") ∧
    Uri.isBuiltin "file:////a/b" = false ∧
    (FileRecord.ofText "file:////a/b" "").logicalPath = none ∧
    Path.base (Uri.toPath "file:////a/b") = "b" ∧
    Path.clean (Uri.toPath "file:////a/b") ≠
      Path.clean (Workspace.directoryOf "file:///a/b/x.proto") ∧
    session.workspace.suggestImport? "/" "file:///a/b/x.proto" "file:////a/b" = some Path.here ∧
    Path.base Path.here ≠ "b" ∧
    ((Session.resolveImport "file:///a/b/x.proto" Path.here).run session).1 = none := by
  have reachable : session.Reachable := Session.Reachable.new.update _ _ _ none
  rw [Session.value_resolveImport _ _ reachable.faithful]
  exact ⟨reachable, rfl, by decide +kernel, rfl, by decide +kernel, by decide +kernel,
    by decide +kernel, by decide, by decide +kernel⟩

end TwoSlashes
end ProtoAtlas
