/-
# Visible files come in the order of the recursive search

The recursive search lists a file and then, import by import, all that the search finds from
there, passing over files that were seen (`Explores`).  The search in a session works with a
stack: it takes a file off, and puts the imports of a new one on top of what is left, where a
file can stand many times.  It finds the same files in the same order
(`explores_iff_depthFirst`): what lies on top of the stack is worked off before anything
below it is touched, so each file of the stack takes its own stretch of the order.

The search comes to an end, through cycles of imports too, because each step takes a file off
the stack and each import statement puts at most one on it, once
(`Workspace.exists_depthFirst_visit`).
-/

import ProtoAtlas.Proofs.Disk.DepthFirst
import ProtoAtlas.Proofs.Workspace.LoadOrder

namespace ProtoAtlas

/-! ### The recursive search -/

/-- The recursive search through the successors `next`: what was seen before, the places to
explore one after the other, and what is found, in order.  A place that was seen is passed
over.  Any other is found, then all that exploring its successors finds, and then what is found
from the other places. -/
inductive Explores {α : Type} (next : α → List α) : List α → List α → List α → Prop
  | done {seen : List α} : Explores next seen [] []
  | pass {seen todo order : List α} {a : α} (known : a ∈ seen)
      (rest : Explores next seen todo order) : Explores next seen (a :: todo) order
  | enter {seen todo below order : List α} {a : α} (new : a ∉ seen)
      (inside : Explores next (a :: seen) (next a) below)
      (rest : Explores next (below.reverse ++ a :: seen) todo order) :
      Explores next seen (a :: todo) (a :: (below ++ order))

section Search

variable {α : Type} {next : α → List α} {seen todo order : List α}

/-- A stack that has the places on it makes the recursive search. -/
theorem Explores.depthFirst (search : Explores next seen todo order) :
    DepthFirst next seen todo order := by
  induction search with
  | done => exact .done
  | pass known _ ih => exact .pass known ih
  | enter new _ _ inside rest => exact .enter new (inside.append rest)

/-- **The top of a stack is worked off first**, by the recursive search. -/
theorem DepthFirst.split {top bottom : List α} (walk : DepthFirst next seen (top ++ bottom) order) :
    ∃ first rest, order = first ++ rest ∧ Explores next seen top first ∧
      DepthFirst next (first.reverse ++ seen) bottom rest := by
  -- What is found below a place is shorter than the whole, but the walk that finds the rest is
  -- no part of the first walk; so the induction is on the length of what is found.
  induction length : order.length using Nat.strongRecOn generalizing seen top bottom order with
  | ind n shorter =>
    induction top with
    | nil => exact ⟨[], order, rfl, .done, walk⟩
    | cons a top ih =>
      cases walk with
      | pass known walk =>
        obtain ⟨first, rest, split, search, walk⟩ := ih walk
        exact ⟨first, rest, split, .pass known search, walk⟩
      | @enter _ _ order _ new walk =>
        rw [List.length_cons] at length
        obtain ⟨below, order', rfl, inside, walk⟩ := shorter order.length (by omega) walk rfl
        rw [List.length_append] at length
        obtain ⟨first, rest, rfl, search, walk⟩ := shorter order'.length (by omega) walk rfl
        refine ⟨a :: (below ++ first), rest, by simp, .enter new inside search, ?_⟩
        simpa using walk

/-- **A stack visits in the order of the recursive search.** -/
theorem explores_iff_depthFirst :
    Explores next seen todo order ↔ DepthFirst next seen todo order := by
  refine ⟨Explores.depthFirst, fun walk => ?_⟩
  rw [← List.append_nil todo] at walk
  obtain ⟨first, rest, rfl, search, ended⟩ := walk.split
  cases ended
  rwa [List.append_nil]

/-- There is one order in which a stack visits. -/
theorem DepthFirst.unique {order' : List α} (walk : DepthFirst next seen todo order)
    (walk' : DepthFirst next seen todo order') : order = order' := by
  induction walk generalizing order' with
  | done =>
    cases walk'
    rfl
  | pass known _ ih =>
    cases walk' with
    | pass _ rest => exact ih rest
    | enter new => exact absurd known new
  | enter new _ ih =>
    cases walk' with
    | pass known => exact absurd known new
    | enter _ rest => rw [ih rest]

end Search

namespace Workspace

open Query Session

variable {w : Workspace} {uri : Text}

theorem isLoaded_of_mem_importedUris {target : Text} (loaded : w.IsLoaded uri)
    (h : target ∈ (importedUris uri).answer w) : w.IsLoaded target := by
  obtain ⟨r, record⟩ := Option.isSome_iff_exists.1 loaded
  exact ((mem_answer_importedUris record).1 h).isLoaded

/-- **The search comes to an end.**  With enough steps for the files on the stack and for the
imports of the files that are not visited, the stack is worked off. -/
theorem exists_depthFirst_visit {steps : Nat} {visited stack : List Text}
    (enough : w.workLeft visited stack ≤ steps) (loaded : ∀ u ∈ stack, w.IsLoaded u) :
    ∃ order, (visit steps visited stack).answer w = visited ++ order ∧
      DepthFirst (fun v => (importedUris v).answer w) visited.reverse stack order := by
  induction steps generalizing visited stack with
  | zero =>
    have none : stack = [] := List.eq_nil_of_length_eq_zero (by rw [workLeft] at enough; omega)
    subst none
    exact ⟨[], (List.append_nil visited).symm, .done⟩
  | succ steps ih =>
    cases stack with
    | nil => exact ⟨[], (List.append_nil visited).symm, .done⟩
    | cons u stack =>
      obtain ⟨here, others⟩ := List.forall_mem_cons.1 loaded
      by_cases seen : u ∈ visited
      · rw [workLeft_skip] at enough
        have enough' : w.workLeft visited stack ≤ steps := by omega
        obtain ⟨order, found, walk⟩ := ih enough' others
        rw [answer_visit_skip (Or.inl seen)]
        exact ⟨order, found, .pass (List.mem_reverse.2 seen) walk⟩
      · have less := workLeft_enter stack seen here
        have enough' :
            w.workLeft (visited ++ [u]) ((importedUris u).answer w ++ stack) ≤ steps := by omega
        have loaded' : ∀ v ∈ (importedUris u).answer w ++ stack, w.IsLoaded v := by
          intro v hv
          rcases List.mem_append.1 hv with imported | waits
          · exact isLoaded_of_mem_importedUris here imported
          · exact others v waits
        obtain ⟨order, found, walk⟩ := ih enough' loaded'
        rw [List.reverse_append] at walk
        rw [answer_visit_enter seen here, found, List.append_assoc]
        exact ⟨u :: order, rfl, .enter (by rwa [List.mem_reverse]) walk⟩

theorem workLeft_start (w : Workspace) (uri : Text) : w.workLeft [] [uri] = visitBound w := by
  rw [workLeft, importsLeft, List.filter_eq_self.2 fun r _ => by simp]
  rfl

/-- From a loaded file the search with a stack comes to an end, however many more steps it may
take. -/
theorem depthFirst_visit (loaded : w.IsLoaded uri) {steps : Nat} (enough : visitBound w ≤ steps) :
    DepthFirst (fun v => (importedUris v).answer w) [] [uri] ((visit steps [] [uri]).answer w) := by
  rw [← workLeft_start w uri] at enough
  have start : ∀ u ∈ [uri], w.IsLoaded u := fun u hu => List.mem_singleton.1 hu ▸ loaded
  obtain ⟨order, found, walk⟩ := exists_depthFirst_visit enough start
  rw [found]
  exact walk

/-- From a file that is not loaded nothing is found. -/
theorem answer_visit_of_not_isLoaded (absent : ¬ w.IsLoaded uri) (steps : Nat) :
    (visit steps [] [uri]).answer w = [] := by
  cases steps with
  | zero => rfl
  | succ steps =>
    rw [answer_visit_skip (Or.inr absent)]
    cases steps <;> rfl

theorem answer_visibleUris (w : Workspace) (uri : Text) :
    (visibleUris uri).answer w = (visit (visitBound w) [] [uri]).answer w := by
  rw [visibleUris, answer_current_bind]

/-- More steps than the bound change nothing. -/
theorem answer_visit_of_le {steps : Nat} (enough : visitBound w ≤ steps) :
    (visit steps [] [uri]).answer w = (visibleUris uri).answer w := by
  rw [answer_visibleUris]
  by_cases loaded : w.IsLoaded uri
  · exact (depthFirst_visit loaded enough).unique (depthFirst_visit loaded (Nat.le_refl _))
  · rw [answer_visit_of_not_isLoaded loaded, answer_visit_of_not_isLoaded loaded]

/-! ### The symbols of visible files -/

/-- The symbols of loaded files, each named once, are those of the files with these names. -/
theorem Indexed.perm_flatMap_symbolsIn (h : w.Indexed) {uris : List Text} (once : uris.Nodup) :
    (uris.flatMap w.symbolsIn).Perm
      ((w.files.filter fun r => uris.contains r.uri).flatMap (·.symbols)) := by
  have named : ∀ {u : Text} {r : FileRecord}, w.file? u = some r → r.uri = u := by
    intro u r found
    simpa using List.find?_some found
  have records : uris.flatMap w.symbolsIn = (uris.filterMap w.file?).flatMap (·.symbols) := by
    rw [List.filterMap_eq_flatMap_toList, List.flatMap_assoc]
    refine List.flatMap_congr fun u _ => ?_
    rw [symbolsIn]
    cases w.file? u with
    | none => rfl
    | some r => simp
  have distinct : (uris.filterMap w.file?).Nodup :=
    once.filterMap fun u u' r found found' => (named found).symm.trans (named found')
  have same : (uris.filterMap w.file?).Perm (w.files.filter fun r => uris.contains r.uri) := by
    refine (List.perm_ext_iff_of_nodup distinct (h.distinct.of_map.filter _)).2 fun r => ?_
    rw [List.mem_filterMap, List.mem_filter, List.contains_iff_mem, h.mem_files_iff]
    constructor
    · rintro ⟨u, hu, found⟩
      obtain rfl := named found
      exact ⟨found, hu⟩
    · rintro ⟨found, hu⟩
      exact ⟨r.uri, hu, found⟩
  rw [records]
  exact same.flatMap_right _

theorem answer_accessibleSymbols (w : Workspace) (uri : Text) :
    (accessibleSymbols uri).answer w = ((visibleUris uri).answer w).flatMap w.symbolsIn :=
  answer_bind (looks_visibleUris uri)
    (fun _ => .current (fun h => by rw [h.symbolsIn]) fun _ => .pure _) w

end Workspace

open Relation (ReflTransGen) in
/-- **Visibility is reachability by imports, in the order of the recursive search.**  In every
reachable session, for every URI, the search for visible files comes to an end: steps beyond
its bound change nothing.  From a URI that is not loaded it finds nothing.  From a loaded file
it works its stack off; it finds the files that imports lead to from there, each once; and the
order is the one and only order of the recursive search that follows the imports of each file
as they are declared.  The accessible symbols are those of the files found, all of them and
each once, in this order. -/
theorem visible_files_come_in_preorder (s : Session) (h : s.Reachable) (uri : Text) :
    let next := fun v => ((Session.importedUris v).run s).1
    let visible := ((Session.visibleUris uri).run s).1
    let symbols := ((Session.accessibleSymbols uri).run s).1
    (∀ steps, Session.visitBound s.workspace ≤ steps →
      ((Session.visit steps [] [uri]).run s).1 = visible) ∧
    (¬ s.workspace.IsLoaded uri → visible = []) ∧
    (s.workspace.IsLoaded uri →
      visible.Nodup ∧ (∀ v, v ∈ visible ↔ ReflTransGen (fun u v => v ∈ next u) uri v) ∧
      DepthFirst next [] [uri] visible ∧
      ∀ order, Explores next [] [uri] order ↔ order = visible) ∧
    symbols = visible.flatMap s.workspace.symbolsIn ∧
    symbols.Perm
      ((s.workspace.files.filter fun r => visible.contains r.uri).flatMap (·.symbols)) := by
  intro next visible symbols
  have imported : next = fun v => (Session.importedUris v).answer s.workspace :=
    funext fun v => h.answer (.importedUris v)
  have found : visible = (Session.visibleUris uri).answer s.workspace := h.answer (.visibleUris uri)
  have ends : s.workspace.IsLoaded uri → DepthFirst next [] [uri] visible := by
    intro loaded
    rw [imported, found, Workspace.answer_visibleUris]
    exact Workspace.depthFirst_visit loaded (Nat.le_refl _)
  have nothing : ¬ s.workspace.IsLoaded uri → visible = [] := by
    intro absent
    rw [found, Workspace.answer_visibleUris, Workspace.answer_visit_of_not_isLoaded absent]
  have once : visible.Nodup := by
    by_cases loaded : s.workspace.IsLoaded uri
    · exact (ends loaded).nodup.1
    · rw [nothing loaded]
      exact List.nodup_nil
  have listed : symbols = visible.flatMap s.workspace.symbolsIn := by
    rw [found, ← Workspace.answer_accessibleSymbols]
    exact h.answer (.accessibleSymbols uri)
  refine ⟨fun steps enough => ?_, nothing, fun loaded => ⟨once, fun v => ?_, ends loaded,
    fun order => ?_⟩, listed, ?_⟩
  · rw [(Session.looks_visit steps [] [uri]).stable.value s h.faithful, found]
    exact Workspace.answer_visit_of_le enough
  · rw [(ends loaded).mem_iff]
    simp
  · rw [explores_iff_depthFirst]
    refine ⟨fun walk => walk.unique (ends loaded), ?_⟩
    rintro rfl
    exact ends loaded
  · rw [listed]
    exact h.indexed.perm_flatMap_symbolsIn once

namespace ImportCycle

/-- Files that import each other in a cycle; one more file is imported by two of them. -/
def session : Session :=
  (((Session.empty.update (.ofText "a" "import 'b' ; import 'c' ;")).update
    (.ofText "b" "import 'd' ;")).update (.ofText "c" "")).update
    (.ofText "d" "import 'a' ; import 'c' ;")

theorem reachable_session : session.Reachable :=
  (((Session.Reachable.new.update _ _ _ none).update _ _ _ none).update _ _ _ none).update
    _ _ _ none

/-- The files that a file of the session imports. -/
theorem importedUris_eq {uri source : Text} {targets : List Text}
    (loaded : session.workspace.file? uri = some (.ofText uri source))
    (means : distinctBy id ((FileRecord.ofText uri source).imports.filterMap fun path =>
      session.workspace.findImport? uri (Path.normalize path)) = targets) :
    ((Session.importedUris uri).run session).1 = targets := by
  rw [reachable_session.answer (.importedUris uri), Workspace.answer_importedUris loaded, means]

/-- The recursive search follows the cycle before it comes to the second import of the first
file, which it has then seen. -/
theorem explores_cycle {next : Text → List Text} (a : next "a" = ["b", "c"]) (b : next "b" = ["d"])
    (c : next "c" = []) (d : next "d" = ["a", "c"]) :
    Explores next [] ["a"] ["a", "b", "d", "c"] := by
  have fromC : Explores next ["c", "d", "b", "a"] (next "c") [] := by
    rw [c]
    exact .done
  have fromD : Explores next ["d", "b", "a"] (next "d") ["c"] := by
    rw [d]
    exact .pass (by decide) (.enter (by decide) fromC .done)
  have fromB : Explores next ["b", "a"] (next "b") ["d", "c"] := by
    rw [b]
    exact .enter (by decide) fromD .done
  have fromA : Explores next ["a"] (next "a") ["b", "d", "c"] := by
    rw [a]
    exact .enter (by decide) fromB (.pass (by decide) .done)
  exact .enter List.not_mem_nil fromA .done

/-- The file that two files import is found on the longer way. -/
theorem visible_through_cycle : session.Reachable ∧ session.workspace.IsLoaded "a" ∧
    ((Session.visibleUris "a").run session).1 = ["a", "b", "d", "c"] := by
  have loaded : session.workspace.IsLoaded "a" := rfl
  obtain ⟨-, -, reached, -⟩ := visible_files_come_in_preorder session reachable_session "a"
  obtain ⟨-, -, -, order⟩ := reached loaded
  have search : Explores (fun v => ((Session.importedUris v).run session).1) [] ["a"]
      ["a", "b", "d", "c"] :=
    explores_cycle (importedUris_eq rfl (by decide +kernel))
      (importedUris_eq rfl (by decide +kernel)) (importedUris_eq rfl (by decide +kernel))
      (importedUris_eq rfl (by decide +kernel))
  exact ⟨reachable_session, loaded, ((order _).1 search).symm⟩

end ImportCycle
end ProtoAtlas
