/-
# Loading walks the imports depth first

A depth-first walk takes the first of the places to do.  It passes over one it has seen
and enters any other, whose successors come before the places that are left
(`DepthFirst`).  A walk enters every place it can reach, and it enters none twice.

Loading is such a walk along imports (`Load.walksWithin`).  What it enters and can read it
registers; what it cannot read has no imports, and an import that cannot be read is noted
and left.  Stubs are never touched, so what they serve stays the same all along
(`Loading.KeepsStubs`).  The bound on how deep imports may nest is never reached: every file
that is entered is one fewer of those the disk lists (`Load.file_eq_of_left_lt`).
-/

import Mathlib.Logic.Relation
import ProtoAtlas.Proofs.Disk.Loaded
import ProtoAtlas.Proofs.Workspace.Commute

namespace ProtoAtlas

/-! ### Depth-first walks -/

/-- A depth-first walk through the successors `next`: what was seen before, what is to do,
and what is entered, in order. -/
inductive DepthFirst {α : Type} (next : α → List α) : List α → List α → List α → Prop
  | done {seen : List α} : DepthFirst next seen [] []
  | pass {seen todo order : List α} {a : α} (known : a ∈ seen)
      (rest : DepthFirst next seen todo order) : DepthFirst next seen (a :: todo) order
  | enter {seen todo order : List α} {a : α} (new : a ∉ seen)
      (rest : DepthFirst next (a :: seen) (next a ++ todo) order) :
      DepthFirst next seen (a :: todo) (a :: order)

namespace DepthFirst

open Relation (ReflTransGen)

variable {α : Type} {next : α → List α} {seen todo order : List α} {a : α}

/-- A walk goes on where another one ended. -/
theorem append {later order' : List α} (first : DepthFirst next seen todo order)
    (second : DepthFirst next (order.reverse ++ seen) later order') :
    DepthFirst next seen (todo ++ later) (order ++ order') := by
  induction first with
  | done => exact second
  | pass known _ ih => exact .pass known (ih second)
  | enter new _ ih =>
    rw [List.reverse_cons, List.append_assoc] at second
    have more := ih second
    rw [List.append_assoc] at more
    exact .enter new more

/-- Nothing is entered twice. -/
theorem nodup (walk : DepthFirst next seen todo order) :
    order.Nodup ∧ ∀ a ∈ order, a ∉ seen := by
  induction walk with
  | done => exact ⟨List.nodup_nil, fun _ h => absurd h List.not_mem_nil⟩
  | pass _ _ ih => exact ih
  | @enter _ _ _ a new _ ih =>
    obtain ⟨distinct, fresh⟩ := ih
    refine ⟨List.nodup_cons.2 ⟨fun again => fresh a again List.mem_cons_self, distinct⟩, ?_⟩
    rintro b (_ | ⟨_, later⟩)
    · exact new
    · exact fun old => fresh b later (List.mem_cons_of_mem a old)

/-- What is entered can be reached. -/
theorem reached (walk : DepthFirst next seen todo order) (entered : a ∈ order) :
    ∃ start ∈ todo, ReflTransGen (fun x y => y ∈ next x) start a := by
  induction walk with
  | done => cases entered
  | pass _ _ ih =>
    obtain ⟨start, mem, path⟩ := ih entered
    exact ⟨start, List.mem_cons_of_mem _ mem, path⟩
  | @enter _ _ _ b _ _ ih =>
    cases entered with
    | head => exact ⟨_, List.mem_cons_self, .refl⟩
    | tail _ later =>
      obtain ⟨start, mem, path⟩ := ih later
      rcases List.mem_append.1 mem with child | left
      · exact ⟨b, List.mem_cons_self, .head child path⟩
      · exact ⟨start, List.mem_cons_of_mem _ left, path⟩

/-- What is to do, and what follows on something entered, is entered unless it was seen. -/
theorem closed (walk : DepthFirst next seen todo order) :
    (∀ a ∈ todo, a ∈ seen ∨ a ∈ order) ∧ ∀ a ∈ order, ∀ b ∈ next a, b ∈ seen ∨ b ∈ order := by
  induction walk with
  | done => exact ⟨fun _ h => absurd h List.not_mem_nil, fun _ h => absurd h List.not_mem_nil⟩
  | pass known _ ih => exact ⟨List.forall_mem_cons.2 ⟨Or.inl known, ih.1⟩, ih.2⟩
  | @enter seen _ order a _ _ ih =>
    have shift : ∀ b, b ∈ a :: seen ∨ b ∈ order → b ∈ seen ∨ b ∈ a :: order := by
      rintro b ((_ | ⟨_, old⟩) | new)
      · exact Or.inr List.mem_cons_self
      · exact Or.inl old
      · exact Or.inr (List.mem_cons_of_mem a new)
    refine ⟨List.forall_mem_cons.2 ⟨Or.inr List.mem_cons_self, fun b hb => ?_⟩,
      List.forall_mem_cons.2 ⟨fun b hb => ?_, fun c hc b hb => shift b (ih.2 c hc b hb)⟩⟩
    · exact shift b (ih.1 b (List.mem_append_right _ hb))
    · exact shift b (ih.1 b (List.mem_append_left _ hb))

/-- **A walk from the start enters exactly what can be reached.** -/
theorem mem_iff (walk : DepthFirst next [] todo order) :
    a ∈ order ↔ ∃ start ∈ todo, ReflTransGen (fun x y => y ∈ next x) start a := by
  refine ⟨walk.reached, ?_⟩
  rintro ⟨start, mem, path⟩
  induction path with
  | refl => exact (walk.closed.1 start mem).resolve_left List.not_mem_nil
  | tail _ step ih => exact (walk.closed.2 _ ih _ step).resolve_left List.not_mem_nil

end DepthFirst

/-! ### Looking for imports -/

namespace Disk

variable {d : Disk}

theorem proper_of_resolve (working : d.workingDirectory.Proper) {path : Text} {place : DiskPath}
    (h : d.resolve path = .ok place) : place.Proper := by
  have origin : (d.startOf path).Proper := by
    unfold startOf
    split
    · exact fun _ mem => absurd mem List.not_mem_nil
    · exact working
  rw [eq_foldl_of_resolve h]
  exact DiskPath.proper_foldl_step origin

/-- A path that names no place is no fault of reading. -/
theorem isReading_of_resolve {path : Text} {fault : DiskFault} (h : d.resolve path = .error fault) :
    fault.isReading = false := by
  have steps : ∀ (parts : List Text) (place : DiskPath),
      parts.foldlM follow place = .error fault → fault.isReading = false := by
    intro parts
    induction parts with
    | nil => intro place h; cases h
    | cons part rest ih =>
      intro place h
      rw [List.foldlM_cons] at h
      cases step : follow place part with
      | ok next =>
        rw [step] at h
        exact ih next h
      | error other =>
        rw [step] at h
        cases h
        unfold follow at step
        split at step
        · cases step
        · dsimp only at step
          split at step
          · cases step
            rfl
          · split at step
            · cases step
              rfl
            · cases step
  exact steps _ _ h

/-- Without a limit no name is too long. -/
theorem walk_ne_nameTooLong (unlimited : d.nameLimit = none) (place : DiskPath)
    (parts : List Text) : d.walk place parts ≠ .nameTooLong := by
  have nodes : ∀ place, d.node place ≠ .nameTooLong := by
    intro place h
    unfold node at h
    split at h
    · cases h
    · cases h
    · split at h <;> cases h
  induction parts generalizing place with
  | nil => exact nodes place
  | cons part rest ih =>
    rw [walk]
    split
    · split
      · exact ih _
      · rw [isTooLong, unlimited]
        exact ih _
    · exact fun h => by cases h
    · exact nodes place

/-- Without a limit the search for an import fails only on a path that names no place. -/
theorem isReading_of_firstFile? (unlimited : d.nameLimit = none) {path : Text}
    {directories : List Text} {fault : DiskFault}
    (h : d.firstFile? path directories = .error fault) : fault.isReading = false := by
  induction directories with
  | nil => cases h
  | cons directory rest ih =>
    rw [firstFile?] at h
    split at h
    · next failed =>
      cases h
      exact isReading_of_resolve failed
    · split at h
      · cases h
      · next found => exact absurd found (walk_ne_nameTooLong unlimited _ _)
      · exact ih h

/-- The search for an import finds a file at a proper place. -/
theorem proper_of_firstFile? (working : d.workingDirectory.Proper) {path : Text}
    {directories : List Text} {place : DiskPath}
    (h : d.firstFile? path directories = .ok (some place)) : place.Proper := by
  induction directories with
  | nil => cases h
  | cons directory rest ih =>
    rw [firstFile?] at h
    split at h
    · cases h
    · next resolved =>
      split at h
      · cases h
        exact proper_of_resolve working resolved
      · cases h
      · exact ih h

/-- How many entries of a disk stand at places that were not visited. -/
def left (d : Disk) (visited : List DiskPath) : Nat :=
  (d.contents.filter (·.1 ∉ visited)).length

theorem left_le_length (d : Disk) (visited : List DiskPath) :
    d.left visited ≤ d.contents.length :=
  List.length_filter_le _ _

theorem left_append_le (new visited : List DiskPath) :
    d.left (new ++ visited) ≤ d.left visited := by
  refine (List.monotone_filter_right _ fun entry h => ?_).length_le
  simp only [decide_eq_true_eq] at h ⊢
  exact fun old => h (List.mem_append_right new old)

/-- A file that is visited is one fewer. -/
theorem left_cons_lt {path : DiskPath} {visited : List DiskPath} (proper : path.Proper)
    (file : d.isFile path = true) (new : path ∉ visited) :
    d.left (path :: visited) < d.left visited := by
  obtain ⟨bytes, listed⟩ := mem_contents_of_isFile proper file
  have again : d.contents.filter (·.1 ∉ path :: visited) =
      (d.contents.filter (·.1 ∉ visited)).filter (·.1 ≠ path) := by
    rw [List.filter_filter]
    congr 1
    funext entry
    simp
  rw [left, again]
  refine List.length_filter_lt_length_iff_exists.2 ⟨(path, some bytes), ?_, by simp⟩
  exact List.mem_filter.2 ⟨listed, by simpa using new⟩

/-- Whether a file can be read and decoded. -/
def isReadable (d : Disk) (path : DiskPath) : Bool :=
  match d.read path with
  | .ok _ => true
  | .error _ => false

end Disk

/-! ### The walk along imports -/

/-- Whether a registered stub serves an import path. -/
def Session.serves (s : Session) (path : Text) : Bool :=
  Stub.isKnown path && (s.workspace.file? (Uri.ofBuiltin path)).isSome

section Walks

variable (d : Disk) (start : Session) (directories : List Text)

/-- The file that one of the imports of a file means, unless a stub serves it. -/
def Disk.importedFile? (path : DiskPath) (i : ImportDecl) : Option DiskPath :=
  if start.serves i.path.text then none
  else
    match d.importTarget? directories path.dropLast i.path.text with
    | .ok target => target
    | .error _ => none

/-- The files that a file imports, in the order of its import statements.  A file that
cannot be read has none. -/
def Disk.importedFiles (path : DiskPath) : List DiskPath :=
  match d.read path with
  | .ok source =>
    (SchemaFile.parse (Uri.ofPath path.text) source).imports.filterMap
      (d.importedFile? start directories path)
  | .error _ => []

/-- The session has the stubs it had at the start. -/
def Loading.KeepsStubs (l : Loading) : Prop :=
  ∀ path, l.session.workspace.file? (Uri.ofBuiltin path) =
    start.workspace.file? (Uri.ofBuiltin path)

/-- The session has the stubs it had at the start, and a file of the disk for every URI that
was loaded. -/
structure Loading.Registers (l : Loading) : Prop where
  stubs : l.KeepsStubs start
  trees : ∀ uri ∈ l.loaded, ∃ (path : DiskPath) (source : Text), path.Proper ∧
    d.read path = .ok source ∧ uri = Uri.ofPath path.text ∧
    l.session.workspace.file? uri =
      some (FileRecord.ofTree uri (SchemaFile.parse uri source) none)

/-- The state after a file was entered and registered. -/
def Loading.entered (l : Loading) (path : DiskPath) (source : Text) : Loading where
  session := l.session.update (FileRecord.ofTree (Uri.ofPath path.text)
    (SchemaFile.parse (Uri.ofPath path.text) source) none)
  visited := path :: l.visited
  loaded := l.loaded ++ [Uri.ofPath path.text]

/-- From one state to another, loading walks depth first through what is to do, and
registers what it enters and can read. -/
def Loading.Walks (l : Loading) (todo : List DiskPath) (l' : Loading) : Prop :=
  ∃ order, DepthFirst (d.importedFiles start directories) l.visited todo order ∧
    l'.visited = order.reverse ++ l.visited ∧
    l'.loaded = l.loaded ++ (order.filter d.isReadable).map (Uri.ofPath ·.text) ∧
    l'.Registers d start

end Walks

namespace Loading

variable {d : Disk} {start : Session} {directories : List Text}

/-- What stubs serve stays the same. -/
theorem KeepsStubs.serves {l : Loading} (h : l.KeepsStubs start) (path : Text) :
    l.session.serves path = start.serves path := by
  rw [Session.serves, Session.serves, h]

/-- A file of the disk is registered under another URI than any stub. -/
theorem KeepsStubs.entered {l : Loading} (h : l.KeepsStubs start) (path : DiskPath)
    (source : Text) : (l.entered path source).KeepsStubs start := by
  intro stub
  have foreign : Uri.ofPath path.text ≠ Uri.ofBuiltin stub := by
    intro same
    have other : (Uri.ofPath path.text).head? = (Uri.ofBuiltin stub).head? := congrArg _ same
    cases other
  exact (Workspace.file?_update _ _ _).trans ((if_neg foreign).trans (h stub))

/-- And the text that was read is what the session has for it. -/
theorem Registers.entered {l : Loading} (h : l.Registers d start) {path : DiskPath}
    (proper : path.Proper) {source : Text} (readable : d.read path = .ok source) :
    (l.entered path source).Registers d start := by
  have files : ∀ uri, (l.entered path source).session.workspace.file? uri =
      if Uri.ofPath path.text = uri then some (FileRecord.ofTree (Uri.ofPath path.text)
        (SchemaFile.parse (Uri.ofPath path.text) source) none)
      else l.session.workspace.file? uri := fun uri => Workspace.file?_update _ _ uri
  refine ⟨h.stubs.entered path source, fun uri loaded => ?_⟩
  by_cases same : Uri.ofPath path.text = uri
  · exact ⟨path, source, proper, readable, same.symm, by rw [files, if_pos same, same]⟩
  · rcases List.mem_append.1 loaded with old | new
    · obtain ⟨other, text, facts, read, its, registered⟩ := h.trees uri old
      exact ⟨other, text, facts, read, its, by rw [files, if_neg same, registered]⟩
    · exact absurd (List.mem_singleton.1 new).symm same

namespace Walks

variable {l l' l'' : Loading} {todo later : List DiskPath} {path : DiskPath}

theorem refl (h : l.Registers d start) : l.Walks d start directories [] l :=
  ⟨[], .done, rfl, (List.append_nil _).symm, h⟩

theorem noted (h : l.Registers d start) (e : Event) :
    l.Walks d start directories [] { l with session := l.session.noted e } :=
  ⟨[], .done, rfl, (List.append_nil _).symm, h.stubs, h.trees⟩

theorem registers (h : l.Walks d start directories todo l') : l'.Registers d start :=
  h.choose_spec.2.2.2

theorem append (first : l.Walks d start directories todo l')
    (second : l'.Walks d start directories later l'') :
    l.Walks d start directories (todo ++ later) l'' := by
  obtain ⟨order, walk, visited, loaded, -⟩ := first
  obtain ⟨order', walk', visited', loaded', registers⟩ := second
  rw [visited] at walk' visited'
  refine ⟨order ++ order', walk.append walk', ?_, ?_, registers⟩
  · rw [visited', List.reverse_append, List.append_assoc]
  · rw [loaded', loaded, List.filter_append, List.map_append, List.append_assoc]

/-- A place that was visited is passed over. -/
theorem pass (h : l.Registers d start) (known : path ∈ l.visited) :
    l.Walks d start directories [path] l :=
  ⟨[], .pass known .done, rfl, (List.append_nil _).symm, h⟩

/-- A file that cannot be read is entered and left. -/
theorem unreadable (h : l.Registers d start) (new : path ∉ l.visited) {fault : DiskFault}
    (failed : d.read path = .error fault) (e : Event) :
    l.Walks d start directories [path]
      { session := l.session.noted e, visited := path :: l.visited, loaded := l.loaded } := by
  have none : d.importedFiles start directories path = [] := by rw [Disk.importedFiles, failed]
  have unread : d.isReadable path = false := by rw [Disk.isReadable, failed]
  refine ⟨[path], .enter new ?_, rfl, ?_, h.stubs, h.trees⟩
  · rw [none]
    exact .done
  · rw [List.filter_cons_of_neg (by simp [unread])]
    exact (List.append_nil _).symm

/-- A file that can be read is registered, and the walk goes on with what it imports. -/
theorem readable {source : Text} (new : path ∉ l.visited) (read : d.read path = .ok source)
    (rest : (l.entered path source).Walks d start directories
      ((SchemaFile.parse (Uri.ofPath path.text) source).imports.filterMap
        (d.importedFile? start directories path)) l') :
    l.Walks d start directories [path] l' := by
  obtain ⟨order, walk, visited, loaded, registers⟩ := rest
  have its : d.importedFiles start directories path =
      (SchemaFile.parse (Uri.ofPath path.text) source).imports.filterMap
        (d.importedFile? start directories path) := by rw [Disk.importedFiles, read]
  have readable : d.isReadable path = true := by rw [Disk.isReadable, read]
  rw [← its] at walk
  refine ⟨path :: order, .enter new ?_, ?_, ?_, registers⟩
  · rw [List.append_nil]
    exact walk
  · rw [visited, List.reverse_cons, List.append_assoc]
    rfl
  · rw [loaded, List.filter_cons_of_pos readable, List.map_cons]
    exact List.append_assoc ..

/-- Fewer files are left after a walk. -/
theorem left_le (h : l.Walks d start directories todo l') :
    d.left l'.visited ≤ d.left l.visited := by
  obtain ⟨order, -, visited, -⟩ := h
  rw [visited]
  exact Disk.left_append_le _ _

end Walks

end Loading

/-! ### Runs of loading -/

namespace Load

variable {α β : Type}

/-- A step ends with a result and a state that satisfy `Q`, or with a fault and a state that
satisfy `R`. -/
def Ends (x : Load α) (l : Loading) (Q : α → Loading → Prop) (R : DiskFault → Loading → Prop) :
    Prop :=
  match x l with
  | .ok a l' => Q a l'
  | .error fault l' => R fault l'

namespace Ends

variable {x : Load α} {f : α → Load β} {l : Loading} {Q Q' : α → Loading → Prop}
  {S : β → Loading → Prop} {R R' : DiskFault → Loading → Prop}

theorem imp (h : Ends x l Q R) (results : ∀ a l', Q a l' → Q' a l')
    (faults : ∀ fault l', R fault l' → R' fault l') : Ends x l Q' R' := by
  unfold Ends at h ⊢
  cases run : x l with
  | ok a l' =>
    rw [run] at h
    exact results a l' h
  | error fault l' =>
    rw [run] at h
    exact faults fault l' h

theorem bind (hx : Ends x l Q R) (hf : ∀ a l', Q a l' → Ends (f a) l' S R) :
    Ends (x >>= f) l S R := by
  unfold Ends at hx
  simp only [Ends, Bind.bind, EStateM.bind]
  cases run : x l with
  | ok a l' =>
    rw [run] at hx
    exact hf a l' hx
  | error fault l' =>
    rw [run] at hx
    exact hx

theorem tryCatch {handler : DiskFault → Load α} (hx : Ends x l Q R')
    (hh : ∀ fault l', R' fault l' → Ends (handler fault) l' Q R) :
    Ends (tryCatch x handler) l Q R := by
  unfold Ends at hx
  simp only [Ends, MonadExcept.tryCatch, tryCatchThe, MonadExceptOf.tryCatch, EStateM.tryCatch]
  cases run : x l with
  | ok a l' =>
    rw [run] at hx
    exact hx
  | error fault l' =>
    rw [run] at hx
    exact hh fault l' hx

end Ends

theorem run_bind_ok {x : Load α} {l l' : Loading} {a : α} (h : x l = .ok a l') (f : α → Load β) :
    (x >>= f) l = f a l' := by
  simp only [Bind.bind, EStateM.bind, h]

/-- What loading a file does about one of its imports. -/
def importing (d : Disk) (directories : List Text) (depth : Nat) (path : DiskPath)
    (i : ImportDecl) : Load Unit := do
  let written := i.path.text
  if ← servedByStub written then return
  match ← ofExcept (d.importTarget? directories path.dropLast written) with
  | none => note (.importNotOnDisk written path.text)
  | some target =>
    tryCatch (file d directories depth target) fun fault =>
      if fault.isReading then note (.importUnreadable target.text path.text fault.message)
      else throw fault

/-- Loading a file that was not visited and can be read registers it and goes on with what it
imports. -/
theorem run_file_readable {d : Disk} {directories : List Text} (depth : Nat) {path : DiskPath}
    {l : Loading} (new : path ∉ l.visited) {source : Text} (read : d.read path = .ok source) :
    file d directories (depth + 1) path l =
      (SchemaFile.parse (Uri.ofPath path.text) source).imports.forM
        (importing d directories depth path) (l.entered path source) := by
  have unseen : ¬ l.visited.contains path = true := by simpa using new
  rw [file]
  refine (run_bind_ok rfl _).trans ?_
  rw [if_neg unseen]
  rw [read]
  rfl

section Runs

variable {d : Disk} {start : Session} {directories : List Text} {path : DiskPath} {l : Loading}

theorem run_file_visited (depth : Nat) (known : path ∈ l.visited) :
    file d directories (depth + 1) path l = .ok () l := by
  have seen : l.visited.contains path = true := by simpa using known
  rw [file]
  refine (run_bind_ok rfl _).trans ?_
  rw [if_pos seen]
  rfl

theorem run_file_unreadable (depth : Nat) (new : path ∉ l.visited) {fault : DiskFault}
    (failed : d.read path = .error fault) :
    file d directories (depth + 1) path l =
      .error fault { l with visited := path :: l.visited } := by
  have unseen : ¬ l.visited.contains path = true := by simpa using new
  rw [file]
  refine (run_bind_ok rfl _).trans ?_
  rw [if_neg unseen]
  rw [failed]
  rfl

/-- How loading a file may end with a fault: a path names no place, or the file itself cannot
be read. -/
def Fails (d : Disk) (path : DiskPath) (l : Loading) (fault : DiskFault) (l' : Loading) : Prop :=
  fault.isReading = false ∨
    path ∉ l.visited ∧ d.read path = .error fault ∧ l' = { l with visited := path :: l.visited }

/-- Loading a file with a bound on the depth is a walk, wherever the bound is enough. -/
def WalksWithin (d : Disk) (start : Session) (directories : List Text) (depth : Nat) : Prop :=
  ∀ (path : DiskPath) (l : Loading), path.Proper → l.Registers d start →
    d.left l.visited < depth → Ends (file d directories depth path) l
      (fun _ l' => l.Walks d start directories [path] l') (Fails d path l)

variable (unlimited : d.nameLimit = none) (working : d.workingDirectory.Proper)
include unlimited working

/-- One of the imports of a file: the walk goes to the file it means, if there is one. -/
theorem ends_importing {depth : Nat} (deeper : WalksWithin d start directories depth)
    (i : ImportDecl) (h : l.Registers d start) (fuel : d.left l.visited < depth) :
    Ends (importing d directories depth path i) l
      (fun _ l' => l.Walks d start directories (d.importedFile? start directories path i).toList l')
      (fun fault _ => fault.isReading = false) := by
  have served : servedByStub i.path.text l = .ok (start.serves i.path.text) l := by
    rw [← h.stubs.serves]
    rfl
  unfold importing Disk.importedFile?
  refine Ends.bind (Q := fun b l' => b = start.serves i.path.text ∧ l' = l) ?_ ?_
  · unfold Ends
    rw [served]
    exact ⟨rfl, rfl⟩
  rintro _ _ ⟨rfl, rfl⟩
  split
  · exact .refl h
  · cases found : d.importTarget? directories path.dropLast i.path.text with
    | error fault => exact Disk.isReading_of_firstFile? unlimited found
    | ok target? =>
      cases target? with
      | none => exact .noted h _
      | some target =>
        have proper := Disk.proper_of_firstFile? working found
        refine Ends.tryCatch (deeper target _ proper h fuel) ?_
        rintro fault l' (notReading | ⟨new, failed, rfl⟩)
        · rw [if_neg (by simp [notReading])]
          exact notReading
        · split
          · exact .unreadable h new failed _
          · next notReading => exact Bool.eq_false_iff.2 notReading

/-- All imports of a file, one after the other. -/
theorem ends_imports {depth : Nat} (deeper : WalksWithin d start directories depth)
    (imports : List ImportDecl) (h : l.Registers d start) (fuel : d.left l.visited < depth) :
    Ends (imports.forM (importing d directories depth path)) l
      (fun _ l' => l.Walks d start directories
        (imports.filterMap (d.importedFile? start directories path)) l')
      (fun fault _ => fault.isReading = false) := by
  induction imports generalizing l with
  | nil => exact .refl h
  | cons i rest ih =>
    refine Ends.bind (ends_importing unlimited working deeper i h fuel) fun _ l' first => ?_
    refine (ih first.registers (first.left_le.trans_lt fuel)).imp (fun _ l'' second => ?_)
      fun _ _ notReading => notReading
    have both := first.append second
    rw [List.filterMap_cons]
    cases found : d.importedFile? start directories path i with
    | none =>
      rw [found] at both
      exact both
    | some target =>
      rw [found] at both
      exact both

/-- **Loading a file walks depth first.**  By induction on the bound: every file that is
entered leaves fewer, so the bound is enough for what it imports. -/
theorem walksWithin (depth : Nat) : WalksWithin d start directories depth := by
  induction depth with
  | zero => exact fun _ _ _ _ fuel => absurd fuel (Nat.not_lt_zero _)
  | succ depth ih =>
    intro path l proper h fuel
    unfold Ends
    by_cases known : path ∈ l.visited
    · rw [run_file_visited depth known]
      exact .pass h known
    · cases read : d.read path with
      | error fault =>
        rw [run_file_unreadable depth known read]
        exact Or.inr ⟨known, read, rfl⟩
      | ok source =>
        have fewer := Disk.left_cons_lt proper (Disk.isFile_of_read read) known
        rw [run_file_readable depth known read]
        exact (ends_imports unlimited working ih _ (h.entered proper read)
          (Nat.lt_of_lt_of_le fewer (Nat.le_of_lt_succ fuel))).imp
          (fun _ l' rest => .readable known read rest)
          fun _ _ notReading => Or.inl notReading

/-! ### The bound on the depth -/

omit unlimited working in
theorem bind_eq {x y : Load α} (same : x l = y l) {f g : α → Load β}
    (next : ∀ a l', x l = .ok a l' → f a l' = g a l') : (x >>= f) l = (y >>= g) l := by
  simp only [Bind.bind, EStateM.bind, ← same]
  cases run : x l with
  | ok a l' => exact next a l' run
  | error fault l' => rfl

omit unlimited working in
theorem tryCatch_eq {x y : Load α} (same : x l = y l) (handler : DiskFault → Load α) :
    tryCatch x handler l = tryCatch y handler l := by
  simp only [tryCatch, tryCatchThe, MonadExceptOf.tryCatch, EStateM.tryCatch, same]

omit unlimited in
/-- One of the imports of a file is dealt with alike if the file it means is loaded alike. -/
theorem importing_eq {depth depth' : Nat}
    (deeper : ∀ target : DiskPath, target.Proper →
      file d directories depth target l = file d directories depth' target l)
    (i : ImportDecl) :
    importing d directories depth path i l = importing d directories depth' path i l := by
  have served : servedByStub i.path.text l = .ok (l.session.serves i.path.text) l := rfl
  simp only [importing, Bind.bind, EStateM.bind, served]
  split
  · rfl
  · cases found : d.importTarget? directories path.dropLast i.path.text with
    | error fault => rfl
    | ok target? =>
      cases target? with
      | none => rfl
      | some target => exact tryCatch_eq (deeper target (Disk.proper_of_firstFile? working found)) _

/-- And so are all of them: each leaves a state for which the bounds are still enough. -/
theorem imports_eq {depth depth' : Nat}
    (deeper : ∀ (target : DiskPath) (l : Loading), target.Proper → l.Registers d start →
      d.left l.visited < depth → d.left l.visited < depth' →
      file d directories depth target l = file d directories depth' target l)
    (imports : List ImportDecl) (h : l.Registers d start) (fuel : d.left l.visited < depth)
    (fuel' : d.left l.visited < depth') :
    imports.forM (importing d directories depth path) l =
      imports.forM (importing d directories depth' path) l := by
  induction imports generalizing l with
  | nil => rfl
  | cons i rest ih =>
    have same : importing d directories depth path i l = importing d directories depth' path i l :=
      importing_eq working (fun target there => deeper target l there h fuel fuel') i
    have ends : Ends (importing d directories depth path i) l _ _ :=
      ends_importing unlimited working (walksWithin unlimited working depth) i h fuel
    refine bind_eq same fun _ l' run => ?_
    unfold Ends at ends
    rw [run] at ends
    exact ih ends.registers (ends.left_le.trans_lt fuel) (ends.left_le.trans_lt fuel')

/-- **Two bounds that are enough give the same run.** -/
theorem file_eq_of_left_lt {depth depth' : Nat} (proper : path.Proper) (h : l.Registers d start)
    (fuel : d.left l.visited < depth) (fuel' : d.left l.visited < depth') :
    file d directories depth path l = file d directories depth' path l := by
  induction depth generalizing depth' path l with
  | zero => exact absurd fuel (Nat.not_lt_zero _)
  | succ depth ih =>
    obtain ⟨depth', rfl⟩ := Nat.exists_eq_succ_of_ne_zero (Nat.ne_zero_of_lt fuel')
    by_cases known : path ∈ l.visited
    · rw [run_file_visited depth known, run_file_visited depth' known]
    · cases read : d.read path with
      | error fault =>
        rw [run_file_unreadable depth known read, run_file_unreadable depth' known read]
      | ok source =>
        have fewer := Disk.left_cons_lt proper (Disk.isFile_of_read read) known
        rw [run_file_readable depth known read, run_file_readable depth' known read]
        exact imports_eq unlimited working (fun target l there hl => ih there hl) _
          (h.entered proper read) (Nat.lt_of_lt_of_le fewer (Nat.le_of_lt_succ fuel))
          (Nat.lt_of_lt_of_le fewer (Nat.le_of_lt_succ fuel'))

/-! ### Loading several files -/

/-- Loads the file that a path text names, with a bound on how deep imports nest. -/
def named (d : Disk) (directories : List Text) (depth : Nat) (path : Text) : Load Unit := do
  file d directories depth (← ofExcept (d.resolve path))

theorem ends_named {depth : Nat} (enough : d.contents.length < depth) (root : Text)
    (h : l.Registers d start) :
    Ends (named d directories depth root) l
      (fun _ l' => ∃ place, d.resolve root = .ok place ∧ l.Walks d start directories [place] l')
      (fun _ _ => True) := by
  unfold named
  cases resolved : d.resolve root with
  | error fault => exact trivial
  | ok place =>
    have proper := Disk.proper_of_resolve working resolved
    have fuel := (d.left_le_length l.visited).trans_lt enough
    exact (walksWithin unlimited working depth place l proper h fuel).imp
      (fun _ l' walks => ⟨place, rfl, walks⟩) fun _ _ _ => trivial

theorem named_eq {depth depth' : Nat} (enough : d.contents.length < depth)
    (enough' : d.contents.length < depth') (root : Text) (h : l.Registers d start) :
    named d directories depth root l = named d directories depth' root l := by
  unfold named
  cases resolved : d.resolve root with
  | error fault => rfl
  | ok place =>
    have fuel := d.left_le_length l.visited
    exact file_eq_of_left_lt unlimited working (Disk.proper_of_resolve working resolved) h
      (fuel.trans_lt enough) (fuel.trans_lt enough')

/-- **Loading files walks depth first** through the places their paths resolve to. -/
theorem ends_files {depth : Nat} (enough : d.contents.length < depth) (roots : List Text)
    (h : l.Registers d start) :
    Ends (roots.forM (named d directories depth)) l
      (fun _ l' => ∃ places, roots.mapM d.resolve = .ok places ∧
        l.Walks d start directories places l')
      (fun _ _ => True) := by
  induction roots generalizing l with
  | nil => exact ⟨[], rfl, .refl h⟩
  | cons root rest ih =>
    refine Ends.bind (ends_named unlimited working enough root h) ?_
    rintro _ l' ⟨place, resolved, first⟩
    refine (ih first.registers).imp ?_ fun _ _ _ => trivial
    rintro _ l'' ⟨places, others, second⟩
    refine ⟨place :: places, ?_, first.append second⟩
    rw [List.mapM_cons, resolved, others]
    rfl

/-- A bound greater than the number of entries makes no difference. -/
theorem files_eq {depth depth' : Nat} (enough : d.contents.length < depth)
    (enough' : d.contents.length < depth') (roots : List Text) (h : l.Registers d start) :
    roots.forM (named d directories depth) l = roots.forM (named d directories depth') l := by
  induction roots generalizing l with
  | nil => rfl
  | cons root rest ih =>
    have ends : Ends (named d directories depth root) l _ _ :=
      ends_named unlimited working enough root h
    refine bind_eq (named_eq unlimited working enough enough' root h) fun _ l' run => ?_
    unfold Ends at ends
    rw [run] at ends
    obtain ⟨_, -, walks⟩ := ends
    exact ih walks.registers

end Runs

end Load

end ProtoAtlas
