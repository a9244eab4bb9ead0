/-
# Files that are asked for

A file that cannot be read is a fault if it was asked for, and an event if it was only
imported.  One list of visited places serves both.  So a file that an import led to first,
and that could not be read, counts as visited, and when it is asked for afterwards it is
passed over.

Loading accounts for every place it visits (`Loading.Accounted`): the file there was read and
registered, or it could not be read, a loaded file imports it and an event says so.  Hence a
load that does not fail has all files it was asked for, but for unreadable ones that a loaded
file imports.  And a file that cannot be read is the fault of the load if nothing that was
loaded before imports it.
-/

import ProtoAtlas.Proofs.Disk.LoadedOnce

namespace ProtoAtlas

/-- Whatever goes wrong with the file at a place is a fault of reading. -/
theorem Disk.isReading_of_read {d : Disk} {path : DiskPath} {fault : DiskFault}
    (h : d.read path = .error fault) : fault.isReading = true := by
  unfold Disk.read at h
  split at h
  · split at h
    · cases h
    · cases h
      rfl
  all_goals
    cases h
    rfl

namespace Loading

/-- Nothing that was visited, loaded or noted in one state is lost in another. -/
structure Before (l l' : Loading) : Prop where
  visited : l.visited ⊆ l'.visited
  loaded : l.loaded ⊆ l'.loaded
  log : l.session.log ⊆ l'.session.log

namespace Before

variable {l l' l'' : Loading}

theorem refl (l : Loading) : l.Before l :=
  ⟨List.Subset.refl _, List.Subset.refl _, List.Subset.refl _⟩

theorem trans (h : l.Before l') (h' : l'.Before l'') : l.Before l'' :=
  ⟨List.Subset.trans h.visited h'.visited, List.Subset.trans h.loaded h'.loaded,
    List.Subset.trans h.log h'.log⟩

theorem noted (l : Loading) (e : Event) : l.Before { l with session := l.session.noted e } :=
  ⟨List.Subset.refl _, List.Subset.refl _, List.subset_cons_self _ _⟩

theorem entered (l : Loading) (path : DiskPath) (source : Text) :
    l.Before (l.entered path source) :=
  ⟨List.subset_cons_self _ _, List.subset_append_left _ _, List.subset_cons_self _ _⟩

end Before

/-- A file was read and registered. -/
def Has (d : Disk) (l : Loading) (path : DiskPath) : Prop :=
  ∃ source, d.read path = .ok source ∧ Uri.ofPath path.text ∈ l.loaded

/-- A file cannot be read, a loaded file imports it, and an event says so. -/
def Warns (d : Disk) (start : Session) (directories : List Text) (l : Loading)
    (path : DiskPath) : Prop :=
  ∃ (fault : DiskFault) (importer : DiskPath), d.read path = .error fault ∧
    Uri.ofPath importer.text ∈ l.loaded ∧ d.Imports start directories importer path ∧
    .importUnreadable path.text importer.text fault.message ∈ l.session.log

/-- Every file that was begun was registered or noted, and the stubs are those of the start. -/
structure Accounted (d : Disk) (start : Session) (directories : List Text) (l : Loading) :
    Prop where
  stubs : l.KeepsStubs start
  each : ∀ path ∈ l.visited, l.Has d path ∨ l.Warns d start directories path

section Accounts

variable {d : Disk} {start : Session} {directories : List Text} {l l' : Loading} {path : DiskPath}

theorem Has.mono (h : l.Has d path) (before : l.Before l') : l'.Has d path := by
  obtain ⟨source, read, mem⟩ := h
  exact ⟨source, read, before.loaded mem⟩

theorem Warns.mono (h : l.Warns d start directories path) (before : l.Before l') :
    l'.Warns d start directories path := by
  obtain ⟨fault, importer, failed, mem, imports, noted⟩ := h
  exact ⟨fault, importer, failed, before.loaded mem, imports, before.log noted⟩

theorem accounted_start (d : Disk) (s : Session) (directories : List Text) :
    Accounted d s directories ⟨s, [], []⟩ :=
  ⟨fun _ => rfl, fun _ mem => absurd mem List.not_mem_nil⟩

namespace Accounted

variable (h : l.Accounted d start directories)
include h

theorem mono (before : l.Before l') : ∀ path ∈ l.visited,
    l'.Has d path ∨ l'.Warns d start directories path :=
  fun path mem => (h.each path mem).imp (·.mono before) (·.mono before)

theorem noted (e : Event) :
    Accounted d start directories { l with session := l.session.noted e } :=
  ⟨h.stubs, h.mono (.noted l e)⟩

/-- A file that can be read is registered. -/
theorem entered {source : Text} (read : d.read path = .ok source) :
    (l.entered path source).Accounted d start directories := by
  have loaded : Uri.ofPath path.text ∈ (l.entered path source).loaded :=
    List.mem_append_right _ List.mem_cons_self
  exact ⟨h.stubs.entered path source, List.forall_mem_cons.2
    ⟨Or.inl ⟨source, read, loaded⟩, h.mono (.entered l path source)⟩⟩

/-- A file that cannot be read and that a loaded file imports is noted. -/
theorem unreadable {importer : DiskPath} {fault : DiskFault} (failed : d.read path = .error fault)
    (loaded : Uri.ofPath importer.text ∈ l.loaded)
    (imports : d.Imports start directories importer path) :
    Accounted d start directories
      { session := l.session.noted (.importUnreadable path.text importer.text fault.message)
        visited := path :: l.visited
        loaded := l.loaded } := by
  refine ⟨h.stubs, List.forall_mem_cons.2 ⟨Or.inr ⟨fault, importer, failed, loaded, imports,
    List.mem_cons_self⟩, h.mono ⟨?_, ?_, ?_⟩⟩⟩
  · exact List.subset_cons_self _ _
  · exact List.Subset.refl _
  · exact List.subset_cons_self _ _

/-- What was visited and cannot be read is imported by a loaded file. -/
theorem warns (mem : path ∈ l.visited) {fault : DiskFault} (failed : d.read path = .error fault) :
    l.Warns d start directories path := by
  rcases h.each path mem with ⟨source, read, -⟩ | warns
  · rw [failed] at read
    cases read
  · exact warns

end Accounted
end Accounts
end Loading

namespace Load

open Loading (Accounted)

section Runs

variable {d : Disk} {start : Session} {directories : List Text} {l : Loading}

/-- A step goes on from a state and leaves another one accounted for. -/
def Continues (d : Disk) (start : Session) (directories : List Text) (l l' : Loading) : Prop :=
  l'.Accounted d start directories ∧ l.Before l'

theorem Continues.trans {l' l'' : Loading} (first : Continues d start directories l l')
    (second : Continues d start directories l' l'') : Continues d start directories l l'' :=
  ⟨second.1, first.2.trans second.2⟩

/-- Loading a file within some depth accounts for what it visits, unless the file itself is
new and cannot be read: then it is visited, and not accounted for yet. -/
def AccountsWithin (d : Disk) (start : Session) (directories : List Text) (depth : Nat) : Prop :=
  ∀ (path : DiskPath) (l : Loading), l.Accounted d start directories →
    Ends (file d directories depth path) l (fun _ l' => Continues d start directories l l')
      (fun fault l' => Continues d start directories l l' ∨
        path ∉ l.visited ∧ d.read path = .error fault ∧
          l' = { l with visited := path :: l.visited })

/-- One of the imports of a loaded file: what it leads to is loaded, or noted. -/
theorem continues_importing {depth : Nat} (deeper : AccountsWithin d start directories depth)
    {path : DiskPath} {source : Text} (read : d.read path = .ok source) {i : ImportDecl}
    (among : i ∈ (SchemaFile.parse (Uri.ofPath path.text) source).imports)
    (loaded : Uri.ofPath path.text ∈ l.loaded) (h : l.Accounted d start directories) :
    Ends (importing d directories depth path i) l
      (fun _ l' => Continues d start directories l l')
      (fun _ l' => Continues d start directories l l') := by
  have stay : Continues d start directories l l := ⟨h, .refl l⟩
  unfold importing
  refine Ends.bind (Q := fun b l' => b = l.session.serves i.path.text ∧ l' = l) ⟨rfl, rfl⟩ ?_
  rintro _ _ ⟨rfl, rfl⟩
  split
  · exact stay
  · next unserved =>
    cases found : d.importTarget? directories path.dropLast i.path.text with
    | error fault => exact stay
    | ok target? =>
      cases target? with
      | none => exact ⟨h.noted _, .noted _ _⟩
      | some target =>
        have atStart : start.serves i.path.text = false := by
          rw [← h.stubs.serves]
          exact Bool.eq_false_iff.2 unserved
        have imports : d.Imports start directories path target :=
          ⟨source, read, i, among, atStart, found⟩
        refine Ends.tryCatch (deeper target _ h) ?_
        rintro fault l' (⟨accounted, before⟩ | ⟨-, failed, rfl⟩)
        · split
          · exact ⟨accounted.noted _, before.trans (.noted _ _)⟩
          · exact ⟨accounted, before⟩
        · rw [if_pos (Disk.isReading_of_read failed)]
          exact ⟨h.unreadable failed loaded imports,
            ⟨List.subset_cons_self _ _, List.Subset.refl _, List.subset_cons_self _ _⟩⟩

/-- All imports of a loaded file, one after the other. -/
theorem continues_imports {depth : Nat} (deeper : AccountsWithin d start directories depth)
    {path : DiskPath} {source : Text} (read : d.read path = .ok source) {imports : List ImportDecl}
    (among : imports ⊆ (SchemaFile.parse (Uri.ofPath path.text) source).imports)
    (loaded : Uri.ofPath path.text ∈ l.loaded) (h : l.Accounted d start directories) :
    Ends (imports.forM (importing d directories depth path)) l
      (fun _ l' => Continues d start directories l l')
      (fun _ l' => Continues d start directories l l') := by
  induction imports generalizing l with
  | nil => exact ⟨h, .refl l⟩
  | cons i rest ih =>
    obtain ⟨first, others⟩ := List.cons_subset.1 among
    refine Ends.bind (continues_importing deeper read first loaded h) fun _ l' step => ?_
    exact (ih others (step.2.loaded loaded) step.1).imp (fun _ _ => step.trans)
      fun _ _ => step.trans

/-- **Loading a file accounts for what it visits**, by induction on how deep imports may
nest. -/
theorem accountsWithin (depth : Nat) : AccountsWithin d start directories depth := by
  induction depth with
  | zero => exact fun _ l h => ⟨h, .refl l⟩
  | succ depth ih =>
    intro path l h
    unfold Ends
    by_cases known : path ∈ l.visited
    · rw [run_file_visited depth known]
      exact ⟨h, .refl l⟩
    · cases read : d.read path with
      | error fault =>
        rw [run_file_unreadable depth known read]
        exact Or.inr ⟨known, rfl, rfl⟩
      | ok source =>
        have entered : Continues d start directories l (l.entered path source) :=
          ⟨h.entered read, .entered l path source⟩
        rw [run_file_readable depth known read]
        exact (continues_imports ih read (List.Subset.refl _)
          (List.mem_append_right _ List.mem_cons_self) entered.1).imp
          (fun _ _ => entered.trans) fun _ _ rest => Or.inl (entered.trans rest)

/-- A file that was loaded without a fault was visited. -/
theorem mem_visited_of_run_file {depth : Nat} {path : DiskPath} {l' : Loading}
    (h : l.Accounted d start directories)
    (run : file d directories (depth + 1) path l = .ok () l') : path ∈ l'.visited := by
  by_cases known : path ∈ l.visited
  · rw [run_file_visited depth known] at run
    cases run
    exact known
  · cases read : d.read path with
    | error fault =>
      rw [run_file_unreadable depth known read] at run
      cases run
    | ok source =>
      have rest : Ends _ (l.entered path source) _ _ :=
        continues_imports (accountsWithin depth) read (List.Subset.refl _)
          (List.mem_append_right _ List.mem_cons_self) (h.entered read)
      unfold Ends at rest
      rw [← run_file_readable depth known read, run] at rest
      exact rest.2.visited List.mem_cons_self

/-- Loading files visits the places of all of them, and accounts for what it visits. -/
theorem accounts_files (depth : Nat) (roots : List Text) (h : l.Accounted d start directories) :
    Ends (roots.forM (named d directories (depth + 1))) l
      (fun _ l' => Continues d start directories l l' ∧
        ∃ places, roots.mapM d.resolve = .ok places ∧ ∀ place ∈ places, place ∈ l'.visited)
      (fun _ _ => True) := by
  induction roots generalizing l with
  | nil => exact ⟨⟨h, .refl l⟩, [], rfl, fun _ mem => absurd mem List.not_mem_nil⟩
  | cons root rest ih =>
    refine Ends.bind (Q := fun _ l' => Continues d start directories l l' ∧
      ∃ place, d.resolve root = .ok place ∧ place ∈ l'.visited) ?_ ?_
    · unfold named
      cases resolved : d.resolve root with
      | error fault => exact trivial
      | ok place =>
        have ends := accountsWithin (depth + 1) place l h
        change Ends (file d directories (depth + 1) place) l _ _
        unfold Ends at ends ⊢
        cases run : file d directories (depth + 1) place l with
        | ok a l' =>
          rw [run] at ends
          exact ⟨ends, place, rfl, mem_visited_of_run_file h run⟩
        | error fault l' => exact trivial
    · rintro _ l' ⟨first, place, resolved, visited⟩
      refine (ih first.1).imp ?_ fun _ _ _ => trivial
      rintro _ l'' ⟨second, places, others, all⟩
      refine ⟨first.trans second, place :: places, ?_,
        List.forall_mem_cons.2 ⟨second.2.visited visited, all⟩⟩
      rw [List.mapM_cons, resolved, others]
      rfl

end Runs
end Load

namespace Session

variable {s s' : Session} {d : Disk} {directories : List Text}

/-- A load that does not fail visits what it was asked for, and accounts for what it
visits. -/
theorem accounted_of_load {roots loaded : List Text}
    (h : s.load d directories roots = (.ok loaded, s')) :
    ∃ l : Loading, (Load.files d directories roots) ⟨s, [], []⟩ = .ok () l ∧ l.loaded = loaded ∧
      l.session = s' ∧ l.Accounted d s directories ∧
      ∃ places, roots.mapM d.resolve = .ok places ∧ ∀ place ∈ places, place ∈ l.visited := by
  have ends : Load.Ends (Load.files d directories roots) ⟨s, [], []⟩ _ _ :=
    Load.accounts_files (d.contents.length + 1) roots (Loading.accounted_start d s directories)
  unfold Session.load at h
  unfold Load.Ends at ends
  split at h
  · next l run =>
    cases h
    rw [EStateM.run] at run
    rw [run] at ends
    exact ⟨l, run, rfl, rfl, ends.1.1, ends.2⟩
  · cases h

/-- A file that cannot be read, and that was not visited before, ends the load. -/
theorem load_of_unreadable {before after : List Text} {root : Text} {l : Loading}
    (run : (Load.files d directories before) ⟨s, [], []⟩ = .ok () l) {place : DiskPath}
    (resolved : d.resolve root = .ok place) (new : place ∉ l.visited) {fault : DiskFault}
    (failed : d.read place = .error fault) :
    s.load d directories (before ++ root :: after) = (.error fault, l.session) := by
  have first : Load.named d directories (Load.maxDepth d) root l =
      .error fault { l with visited := place :: l.visited } := by
    unfold Load.named
    rw [resolved]
    exact Load.run_file_unreadable (d.contents.length + 1) new failed
  have whole : Load.files d directories (before ++ root :: after) ⟨s, [], []⟩ =
      .error fault { l with visited := place :: l.visited } := by
    have split : Load.files d directories (before ++ root :: after) =
        Load.files d directories before >>= fun _ =>
          (Load.named d directories (Load.maxDepth d) root >>= fun _ =>
            Load.files d directories after) := List.forM_append
    rw [split, Load.run_bind_ok run]
    simp only [Bind.bind, EStateM.bind, first]
  rw [Session.load, EStateM.run, whole]

end Session

/-- **Files that are asked for are loaded or reported**, unless an import led to them before.
When a load does not fail, every path it was given names a place, and the file there was read
and decoded and its URI is among those that were loaded; or the file cannot be read, a loaded
file imports it, and an event says that it could not be read.  And a file that cannot be read
is the fault the load ends with if the files before it in the list load and none of what they
loaded imports it. -/
theorem asked_files_are_loaded_or_reported (d : Disk) (s : Session) (directories : List Text) :
    (∀ roots loaded s', s.load d directories roots = (.ok loaded, s') →
      ∃ places, roots.mapM d.resolve = .ok places ∧ ∀ place ∈ places,
        (∃ source, d.read place = .ok source ∧ Uri.ofPath place.text ∈ loaded) ∨
        ∃ (fault : DiskFault) (importer : DiskPath), d.read place = .error fault ∧
          Uri.ofPath importer.text ∈ loaded ∧ d.Imports s directories importer place ∧
          .importUnreadable place.text importer.text fault.message ∈ s'.log) ∧
    ∀ before root after loaded s' place fault,
      s.load d directories before = (.ok loaded, s') →
      d.resolve root = .ok place → d.read place = .error fault →
      (∀ importer : DiskPath, Uri.ofPath importer.text ∈ loaded →
        ¬ d.Imports s directories importer place) →
      s.load d directories (before ++ root :: after) = (.error fault, s') := by
  constructor
  · intro roots loaded s' h
    obtain ⟨l, -, rfl, rfl, accounted, places, resolved, visited⟩ := Session.accounted_of_load h
    exact ⟨places, resolved, fun place mem => accounted.each place (visited place mem)⟩
  · intro before root after loaded s' place fault h resolved failed alone
    obtain ⟨l, run, rfl, rfl, accounted, -⟩ := Session.accounted_of_load h
    refine Session.load_of_unreadable run resolved (fun mem => ?_) failed
    obtain ⟨_, importer, -, loaded, imports, -⟩ := accounted.warns mem failed
    exact alone importer loaded imports

namespace AskedFor

/-- The place of a file that imports another. -/
def importing : DiskPath := ["a"]

/-- The place of the other, which is no text. -/
def undecodable : DiskPath := ["b"]

/-- A file and what it imports. -/
def disk : Disk where
  contents := [(importing, some (Utf8.encode "import 'b';")), (undecodable, some [0xFF])]
  workingDirectory := []
  nameLimit := none

/-- Asked for first, the file that is no text is reported; only imported, it is left out and
the load has what it was asked for. -/
theorem first_is_reported_and_import_is_left :
    (∃ fault, disk.read undecodable = .error fault ∧
      Session.empty.load disk [] ["b", "a"] = (.error fault, Session.empty)) ∧
    (Session.empty.load disk [] ["a"]).1 = .ok [Uri.ofPath importing.text] ∧
    ∃ source, disk.read importing = .ok source := by
  have facts : (Session.empty.load disk [] ["a"]).1 = .ok [Uri.ofPath importing.text] ∧
      disk.isReadable undecodable = false ∧ disk.isReadable importing = true ∧
      (["a"] : List Text).mapM disk.resolve = .ok [importing] ∧
      disk.resolve "b" = .ok undecodable := by
    decide +kernel
  obtain ⟨load, unread, readable, rooted, resolved⟩ := facts
  obtain ⟨asked, reported⟩ := asked_files_are_loaded_or_reported disk Session.empty []
  refine ⟨?_, load, ?_⟩
  · cases read : disk.read undecodable with
    | ok source => exact absurd (Disk.isReadable_iff.2 ⟨source, read⟩) (by simp [unread])
    | error fault =>
      exact ⟨fault, rfl, reported [] "b" ["a"] [] Session.empty undecodable fault rfl resolved read
        fun _ mem => absurd mem List.not_mem_nil⟩
  · obtain ⟨places, rooted', each⟩ := asked ["a"] _ _ (Prod.ext load rfl)
    obtain rfl : [importing] = places := Except.ok.inj (rooted.symm.trans rooted')
    rcases each importing List.mem_cons_self with ⟨source, read, -⟩ | ⟨fault, -, failed, -⟩
    · exact ⟨source, read⟩
    · obtain ⟨source, read⟩ := Disk.isReadable_iff.1 readable
      rw [failed] at read
      cases read

/-- **A file that is asked for is dropped.**  It cannot be read, and it is asked for after a
file that imports it: the load does not fail, and the file is not among those it gives. -/
theorem imported_file_is_dropped :
    (["a", "b"] : List Text).mapM disk.resolve = .ok [importing, undecodable] ∧
      disk.isReadable undecodable = false ∧
      (Session.empty.load disk [] ["a", "b"]).1 = .ok [Uri.ofPath importing.text] ∧
      Uri.ofPath undecodable.text ∉ [Uri.ofPath importing.text] := by
  decide +kernel

end AskedFor
end ProtoAtlas
