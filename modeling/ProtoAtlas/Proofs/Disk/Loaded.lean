/-
# What loading leaves in a session

Loading only ever registers files of the disk, each under the URI of its path and
without a logical path (`Loading.Sound`).  Every step of loading keeps this, also one
that ends in a fault, since a fault does not undo what was loaded before it
(`Load.Keeps`).  So it holds when a load is done (`Session.sound_of_load`).

An import is looked for on the disk by following its path from one directory after the
other (`Disk.find?_isFile_of_firstFile?`).
-/

import ProtoAtlas.Disk.Load
import ProtoAtlas.Proofs.Path.Place
import ProtoAtlas.Proofs.Workspace.Indexed

namespace ProtoAtlas

/-! ### Files of a disk -/

namespace Disk

variable {d : Disk}

/-- Whether a file stands at a path. -/
def isFile (d : Disk) (path : DiskPath) : Bool :=
  match d.walk [] path with
  | .file _ => true
  | _ => false

theorem isFile_of_walk {path : DiskPath} {bytes : List UInt8} (h : d.walk [] path = .file bytes) :
    d.isFile path = true := by
  rw [isFile, h]

theorem isFile_of_read {path : DiskPath} {source : Text} (h : d.read path = .ok source) :
    d.isFile path = true := by
  unfold read at h
  split at h
  · next bytes found => exact isFile_of_walk found
  all_goals cases h

/-- A walk that takes no step up ends at a file the disk lists. -/
theorem mem_contents_of_walk {parts : List Text} (proper : DiskPath.Proper parts)
    {place : DiskPath} {bytes : List UInt8} (h : d.walk place parts = .file bytes) :
    (place ++ parts, some bytes) ∈ d.contents := by
  induction parts generalizing place with
  | nil =>
    rw [walk, node] at h
    split at h
    · next path bytes' found =>
      have same : path = place := by simpa using List.find?_some found
      have : bytes' = bytes := by simpa using h
      rw [List.append_nil, ← same, ← this]
      exact List.mem_of_find?_eq_some found
    · cases h
    · split at h <;> cases h
  | cons part rest ih =>
    have name : DiskPath.IsName part := proper part (List.mem_cons_self ..)
    rw [walk] at h
    split at h
    · rw [if_neg name.notUp] at h
      split at h
      · cases h
      · have := ih (fun p hp => proper p (List.mem_cons_of_mem _ hp)) h
        rwa [List.append_assoc, List.singleton_append] at this
    · cases h
    · next other notDirectory notFile => exact absurd h (notFile bytes)

theorem mem_contents_of_isFile {path : DiskPath} (proper : path.Proper)
    (h : d.isFile path = true) : ∃ bytes, (path, some bytes) ∈ d.contents := by
  unfold isFile at h
  split at h
  · next bytes found => exact ⟨bytes, mem_contents_of_walk proper found⟩
  · cases h

/-- The search for an import finds the first file among the places its path leads to. -/
theorem find?_isFile_of_firstFile? {directories : List DiskPath}
    (proper : ∀ directory ∈ directories, directory.Proper) {path : Text} {target : DiskPath}
    (h : d.firstFile? path (directories.map DiskPath.text) = .ok (some target)) :
    (directories.map (·.locate path)).find? d.isFile = some target := by
  induction directories with
  | nil => cases h
  | cons directory rest ih =>
    have later := ih fun other mem => proper other (List.mem_cons_of_mem _ mem)
    rw [List.map_cons, firstFile?] at h
    split at h
    · cases h
    · next place resolved =>
      have here : place = directory.locate path :=
        eq_locate_of_resolve (proper directory (List.mem_cons_self ..)) resolved
      rw [List.map_cons, ← here]
      split at h
      · next bytes found =>
        have : place = target := by simpa using h
        rw [List.find?_cons_of_pos (isFile_of_walk found), this]
      · cases h
      · next other notFile _ =>
        have absent : ¬ d.isFile place = true := by
          intro file
          unfold isFile at file
          split at file
          · next bytes found => exact notFile bytes found
          · cases file
        rw [List.find?_cons_of_neg absent]
        exact later h

end Disk

/-! ### What a step of loading keeps -/

namespace Load

variable {P : Loading → Prop} {α β : Type}

/-- The state after a step, whether it failed or not. -/
def after (x : Load α) (l : Loading) : Loading :=
  match x.run l with
  | .ok _ l' => l'
  | .error _ l' => l'

/-- A step keeps a property of the state, also when it fails. -/
def Keeps (P : Loading → Prop) (x : Load α) : Prop :=
  ∀ l, P l → P (x.after l)

theorem keeps_pure (a : α) : Keeps P (pure a : Load α) := fun _ h => h

theorem keeps_throw (fault : DiskFault) : Keeps P (throw fault : Load α) := fun _ h => h

theorem keeps_get : Keeps P (get : Load Loading) := fun _ h => h

theorem keeps_modify {f : Loading → Loading} (h : ∀ l, P l → P (f l)) :
    Keeps P (modify f : Load Unit) := h

theorem keeps_bind {x : Load α} {f : α → Load β} (hx : Keeps P x) (hf : ∀ a, Keeps P (f a)) :
    Keeps P (x >>= f) := by
  intro l hl
  have first := hx l hl
  simp only [after, EStateM.run, bind, EStateM.bind] at first ⊢
  cases run : x l with
  | ok a l' =>
    rw [run] at first
    exact hf a l' first
  | error fault l' =>
    rw [run] at first
    exact first

/-- A step that goes on with a result has to keep the property for that result only. -/
theorem keeps_ofExcept_bind {e : Except DiskFault α} {f : α → Load β}
    (h : ∀ a, e = .ok a → Keeps P (f a)) : Keeps P (ofExcept e >>= f) := by
  cases e with
  | ok a => exact h a rfl
  | error fault => exact keeps_throw fault

/-- What a failed step has done stays done, and the handler goes on from there. -/
theorem keeps_tryCatch {x : Load α} {handler : DiskFault → Load α} (hx : Keeps P x)
    (hh : ∀ fault, Keeps P (handler fault)) : Keeps P (tryCatch x handler) := by
  intro l hl
  have first := hx l hl
  simp only [after, EStateM.run, tryCatch, tryCatchThe, MonadExceptOf.tryCatch,
    EStateM.tryCatch] at first ⊢
  cases run : x l with
  | ok a l' =>
    rw [run] at first
    exact first
  | error fault l' =>
    rw [run] at first
    exact hh fault l' first

theorem keeps_forM {xs : List α} {f : α → Load Unit} (h : ∀ a ∈ xs, Keeps P (f a)) :
    Keeps P (xs.forM f) := by
  induction xs with
  | nil => exact keeps_pure ()
  | cons a rest ih =>
    exact keeps_bind (h a (List.mem_cons_self ..)) fun _ =>
      ih fun b hb => h b (List.mem_cons_of_mem _ hb)

theorem keeps_ite {c : Prop} [Decidable c] {x y : Load α} (hx : Keeps P x) (hy : Keeps P y) :
    Keeps P (if c then x else y) := by
  split
  · exact hx
  · exact hy

end Load

/-! ### The invariant of loading -/

namespace Workspace

theorem exists_mem_putFile {files : List FileRecord} {uri : Text}
    (h : ∃ r ∈ files, r.uri = uri) (new : FileRecord) :
    ∃ r ∈ putFile files new, r.uri = uri := by
  obtain ⟨r, hr, rfl⟩ := h
  unfold putFile
  split
  · refine ⟨_, List.mem_map_of_mem hr, ?_⟩
    by_cases same : r.uri = new.uri
    · rw [if_pos same, same]
    · rw [if_neg same]
  · exact ⟨r, List.mem_append_left _ hr, rfl⟩

theorem exists_mem_putFile_self (files : List FileRecord) (new : FileRecord) :
    ∃ r ∈ putFile files new, r.uri = new.uri := by
  unfold putFile
  split
  · next found =>
    obtain ⟨old, hold, same⟩ := List.any_eq_true.1 found
    have same : old.uri = new.uri := of_decide_eq_true same
    exact ⟨new, List.mem_map.2 ⟨old, hold, if_pos same⟩, rfl⟩
  · exact ⟨new, List.mem_append_right _ (List.mem_singleton_self new), rfl⟩

end Workspace

namespace Uri

/-- A file on disk is no stub. -/
theorem isBuiltin_ofPath (path : Text) : isBuiltin (ofPath path) = false := rfl

theorem builtinPath?_ofPath (path : Text) : builtinPath? (ofPath path) = none := rfl

end Uri

/-- The session holds what it held at the start and the files of the disk that were
loaded, under the URIs of their paths. -/
structure Loading.Sound (d : Disk) (start : Session) (l : Loading) : Prop where
  settings : l.session.workspace.settings = start.workspace.settings
  /-- No import path has been looked up yet. -/
  known : l.session.known = ∅
  files : ∀ r ∈ l.session.workspace.files,
    r ∈ start.workspace.files ∨ r.uri ∈ l.loaded ∧ r.logicalPath = none
  registered : ∀ uri ∈ l.loaded, ∃ r ∈ l.session.workspace.files, r.uri = uri
  onDisk : ∀ uri ∈ l.loaded, ∃ path : DiskPath,
    path.Proper ∧ d.isFile path = true ∧ uri = Uri.ofPath path.text

namespace Load

open Loading (Sound)

variable {d : Disk} {start : Session}

theorem keeps_note (e : Event) : Keeps (Sound d start) (note e) :=
  keeps_modify fun _ h => ⟨h.settings, h.known, h.files, h.registered, h.onDisk⟩

theorem keeps_servedByStub (path : Text) : Keeps (Sound d start) (servedByStub path) :=
  keeps_bind keeps_get fun _ => keeps_pure _

theorem keeps_register {path : DiskPath} (proper : path.Proper) (file : d.isFile path = true)
    (source : Text) : Keeps (Sound d start) (register path source) := by
  refine keeps_bind (keeps_modify fun l h => ?_) fun _ => keeps_pure _
  refine ⟨h.settings, rfl, fun r hr => ?_, fun uri huri => ?_, fun uri huri => ?_⟩
  · rcases Workspace.mem_of_mem_putFile hr with rfl | old
    · exact Or.inr ⟨List.mem_append_right _ (List.mem_singleton_self _),
        Uri.builtinPath?_ofPath path.text⟩
    · exact (h.files r old).imp_right fun ⟨mem, plain⟩ => ⟨List.mem_append_left _ mem, plain⟩
  · rcases List.mem_append.1 huri with old | new
    · exact Workspace.exists_mem_putFile (h.registered uri old) _
    · rw [List.mem_singleton.1 new]
      exact Workspace.exists_mem_putFile_self _
        (FileRecord.ofTree _ (SchemaFile.parse (Uri.ofPath path.text) source) none)
  · rcases List.mem_append.1 huri with old | new
    · exact h.onDisk uri old
    · exact ⟨path, proper, file, List.mem_singleton.1 new⟩

/-- The target of an import has a proper path. -/
theorem proper_of_importTarget? {directories : List DiskPath} {directory target : DiskPath}
    (proper : ∀ other ∈ directory :: directories, other.Proper) {path : Text}
    (h : d.importTarget? (directories.map DiskPath.text) directory path = .ok (some target)) :
    target.Proper := by
  have found := Disk.find?_isFile_of_firstFile? proper h
  obtain ⟨other, mem, rfl⟩ := List.mem_map.1 (List.mem_of_find?_eq_some found)
  exact (proper other mem).locate path

/-- Loading a file keeps the invariant, by induction on how deep imports may nest. -/
theorem keeps_file {directories : List DiskPath}
    (proper : ∀ directory ∈ directories, directory.Proper) (depth : Nat) {path : DiskPath}
    (here : path.Proper) :
    Keeps (Sound d start) (file d (directories.map DiskPath.text) depth path) := by
  induction depth generalizing path with
  | zero => exact keeps_pure ()
  | succ depth ih =>
    unfold file
    refine keeps_bind keeps_get fun l => ?_
    refine keeps_ite (keeps_pure ()) ?_
    refine keeps_bind (keeps_modify fun _ h =>
      ⟨h.settings, h.known, h.files, h.registered, h.onDisk⟩) fun _ => ?_
    refine keeps_ofExcept_bind fun source readable => ?_
    refine keeps_bind (keeps_register here (Disk.isFile_of_read readable) source) fun tree => ?_
    refine keeps_forM fun imported _ => ?_
    refine keeps_bind (keeps_servedByStub _) fun served => ?_
    refine keeps_ite (keeps_pure ()) ?_
    refine keeps_ofExcept_bind fun target? found => ?_
    cases target? with
    | none => exact keeps_note _
    | some target =>
      have there : target.Proper := proper_of_importTarget?
        (List.forall_mem_cons.2 ⟨here.dropLast, proper⟩) found
      exact keeps_tryCatch (ih there) fun fault => keeps_ite (keeps_note _) (keeps_throw fault)

theorem keeps_files {directories : List DiskPath}
    (proper : ∀ directory ∈ directories, directory.Proper)
    (working : d.workingDirectory.Proper) (paths : List Text) :
    Keeps (Sound d start) (files d (directories.map DiskPath.text) paths) := by
  refine keeps_forM fun path _ => keeps_ofExcept_bind fun place resolved => ?_
  have origin : (d.startOf path).Proper := by
    unfold Disk.startOf
    split
    · intro part mem
      cases mem
    · exact working
  refine keeps_file proper _ ?_
  rw [Disk.eq_foldl_of_resolve resolved]
  exact DiskPath.proper_foldl_step origin

end Load

theorem Session.sound_of_load {s s' : Session} {d : Disk} {directories : List DiskPath}
    {paths loaded : List Text} (proper : ∀ directory ∈ directories, directory.Proper)
    (working : d.workingDirectory.Proper) (unasked : s.known = ∅)
    (h : s.load d (directories.map DiskPath.text) paths = (.ok loaded, s')) :
    ∃ l : Loading, l.Sound d s ∧ l.loaded = loaded ∧ l.session = s' := by
  have before : Loading.Sound d s ⟨s, [], []⟩ :=
    ⟨rfl, unasked, fun _ => Or.inl, fun _ mem => (nomatch mem), fun _ mem => (nomatch mem)⟩
  have kept := Load.keeps_files proper working paths _ before
  unfold Session.load at h
  unfold Load.after at kept
  split at h
  · next l run =>
    rw [run] at kept
    cases h
    exact ⟨l, kept, rfl, rfl⟩
  · cases h

end ProtoAtlas
