/-
# Questions and their answers

What a session remembers about imports is what its workspace would say
(`Session.Faithful`): every change of the files or the settings makes it forget, and a
question adds only what it has just looked up.  So the answer to a question depends on
the workspace alone.  It is the answer in a session that has just begun
(`Query.answer`), and for questions made of other questions the answers can be worked
out as equations between functions of the workspace.  In workspaces that are alike a
question has one answer (`Query.Looks.answer_eq`).
-/

import ProtoAtlas.Proofs.Workspace.Indexed

namespace ProtoAtlas

/-- A session on a workspace in which nothing has been asked yet. -/
def Session.fresh (w : Workspace) : Session := ⟨w, ∅, []⟩

/-- What a session remembers about imports is what its workspace says. -/
def Session.Faithful (s : Session) : Prop :=
  ∀ (importer path : Text) (target : Option Text), s.known[(importer, path)]? = some target →
    target = s.workspace.findImport? importer (Path.normalize path)

theorem Session.faithful_of_known_empty {s : Session} (h : s.known = ∅) : s.Faithful := by
  intro importer path target found
  rw [h] at found
  simp at found

namespace Query

variable {α β : Type}

/-- The answer to a question in a session that has just begun. -/
def answer (q : Query α) (w : Workspace) : α := (q.run (Session.fresh w)).1

/-- A question whose answer depends on the workspace alone. -/
structure Stable (q : Query α) : Prop where
  keeps : ∀ s : Session, (q.run s).2.workspace = s.workspace
  faithful : ∀ s : Session, s.Faithful → (q.run s).2.Faithful
  value : ∀ s : Session, s.Faithful → (q.run s).1 = q.answer s.workspace

@[simp] theorem answer_pure (a : α) (w : Workspace) : (pure a : Query α).answer w = a := rfl

@[simp] theorem answer_current_bind (f : Workspace → Query β) (w : Workspace) :
    (Session.current >>= f).answer w = (f w).answer w := rfl

namespace Stable

/-- The answer to two questions in a row, in any faithful session. -/
theorem value_bind {q : Query α} {f : α → Query β} (hq : Stable q) (hf : ∀ a, Stable (f a))
    {s : Session} (h : s.Faithful) :
    ((q >>= f).run s).1 = (f (q.answer s.workspace)).answer s.workspace := by
  have second := (hf (q.run s).1).value _ (hq.faithful s h)
  rw [hq.keeps s, hq.value s h] at second
  rw [← second, ← hq.value s h]
  rfl

theorem bind {q : Query α} {f : α → Query β} (hq : Stable q) (hf : ∀ a, Stable (f a)) :
    Stable (q >>= f) where
  keeps := fun s => ((hf _).keeps _).trans (hq.keeps s)
  faithful := fun s h => (hf _).faithful _ (hq.faithful s h)
  value := fun s h => by
    have begun : (Session.fresh s.workspace).Faithful := Session.faithful_of_known_empty rfl
    exact (value_bind hq hf h).trans (value_bind hq hf begun).symm

end Stable

end Query

namespace Session

open Query

/-- An import that was looked up before means what it meant then. -/
theorem run_resolveImport_known {importer path : Text} {s : Session} {target : Option Text}
    (found : s.known[(importer, path)]? = some target) :
    (resolveImport importer path).run s = (target, s) := by
  rw [resolveImport, StateT.run_bind, StateT.run_get, pure_bind]
  simp only [found]
  rfl

/-- An import that was not looked up before means what the workspace says, and this is
remembered. -/
theorem run_resolveImport_unknown {importer path : Text} {s : Session}
    (unknown : s.known[(importer, path)]? = none) :
    ∃ log, (resolveImport importer path).run s =
      (s.workspace.findImport? importer (Path.normalize path),
        { s with
          known := s.known.insert (importer, path)
            (s.workspace.findImport? importer (Path.normalize path))
          log := log }) := by
  rw [resolveImport, StateT.run_bind, StateT.run_get, pure_bind]
  simp only [unknown]
  cases s.workspace.findImport? importer (Path.normalize path) with
  | none => exact ⟨_, rfl⟩
  | some target => exact ⟨_, rfl⟩

/-- **What an import means** depends on the workspace alone, whether it is remembered or
not. -/
theorem value_resolveImport (importer path : Text) {s : Session} (h : s.Faithful) :
    ((resolveImport importer path).run s).1 =
      s.workspace.findImport? importer (Path.normalize path) := by
  cases found : s.known[(importer, path)]? with
  | some target =>
    rw [run_resolveImport_known found]
    exact h importer path target found
  | none =>
    obtain ⟨log, run⟩ := run_resolveImport_unknown found
    rw [run]

theorem faithful_resolveImport (importer path : Text) {s : Session} (h : s.Faithful) :
    ((resolveImport importer path).run s).2.Faithful := by
  cases found : s.known[(importer, path)]? with
  | some target =>
    rw [run_resolveImport_known found]
    exact h
  | none =>
    obtain ⟨log, run⟩ := run_resolveImport_unknown found
    rw [run]
    intro importer' path' target' known
    rw [Std.HashMap.getElem?_insert] at known
    split at known
    · next same =>
      rw [beq_iff_eq, Prod.mk.injEq] at same
      obtain ⟨rfl, rfl⟩ := same
      exact (Option.some.inj known).symm
    · exact h importer' path' target' known

@[simp] theorem answer_resolveImport (importer path : Text) (w : Workspace) :
    (resolveImport importer path).answer w = w.findImport? importer (Path.normalize path) :=
  value_resolveImport importer path (s := fresh w) (faithful_of_known_empty rfl)

end Session

namespace Query

variable {α β : Type}

/-- **The answer to a question depends on the workspace alone.** -/
theorem Looks.stable {q : Query α} (h : Looks q) : Stable q := by
  induction h with
  | pure a => exact ⟨fun _ => rfl, fun _ h => h, fun _ _ => rfl⟩
  | note e => exact ⟨fun _ => rfl, fun _ h => h, fun _ _ => rfl⟩
  | resolveImport importer path =>
    refine ⟨Session.keeps_resolveImport importer path,
      fun _ h => Session.faithful_resolveImport importer path h, fun _ h => ?_⟩
    rw [Session.value_resolveImport importer path h, Session.answer_resolveImport]
  | current _ _ ih =>
    exact Stable.bind ⟨fun _ => rfl, fun _ h => h, fun _ _ => rfl⟩ ih
  | bind _ _ first rest => exact first.bind rest

/-- **Two questions in a row.**  The second is asked in the same workspace. -/
theorem answer_bind {q : Query α} {f : α → Query β} (hq : Looks q) (hf : ∀ a, Looks (f a))
    (w : Workspace) : (q >>= f).answer w = (f (q.answer w)).answer w :=
  Stable.value_bind hq.stable (fun a => (hf a).stable) (Session.faithful_of_known_empty rfl)

theorem answer_ite (c : Prop) [Decidable c] (q r : Query α) (w : Workspace) :
    (if c then q else r).answer w = if c then q.answer w else r.answer w :=
  apply_ite (·.answer w) c q r

theorem answer_mapM {f : α → Query β} {xs : List α} (h : ∀ a ∈ xs, Looks (f a)) (w : Workspace) :
    (xs.mapM f).answer w = xs.map fun a => (f a).answer w := by
  induction xs with
  | nil => rfl
  | cons a rest ih =>
    obtain ⟨here, later⟩ := List.forall_mem_cons.1 h
    rw [List.mapM_cons, answer_bind here fun b => (Looks.mapM later).bind fun bs => .pure _,
      answer_bind (.mapM later) fun bs => .pure _, ih later]
    rfl

/-- **Every question has one answer in workspaces that are alike.** -/
theorem Looks.answer_eq {q : Query α} (h : Looks q) {v w : Workspace}
    (alike : v.Alike w) : q.answer v = q.answer w := by
  induction h with
  | pure a => rfl
  | note e => rfl
  | resolveImport importer path =>
    rw [Session.answer_resolveImport, Session.answer_resolveImport, alike.findImport?]
  | current same _ ih =>
    rw [answer_current_bind, answer_current_bind, same alike]
    exact ih w
  | bind looks rest first second =>
    rw [answer_bind looks rest, answer_bind looks rest, first]
    exact second _

end Query

namespace Session

open Query

/-- **Every reachable session is faithful**: a change of files or settings makes it
forget, and a question remembers what the workspace says. -/
theorem Reachable.faithful {s : Session} (h : s.Reachable) : s.Faithful := by
  have loaded : ∀ (stubs : List Stub) (s : Session), s.known = ∅ →
      (stubs.foldl (fun s stub => s.update (stubRecord stub)) s).known = ∅ := by
    intro stubs
    induction stubs with
    | nil => exact fun s h => h
    | cons stub rest ih => exact fun s h => ih _ rfl
  induction h with
  | new => exact faithful_of_known_empty rfl
  | newWithStubs => exact faithful_of_known_empty (loaded _ _ rfl)
  | update _ uri treeUri source logicalPath _ => exact faithful_of_known_empty rfl
  | @remove s _ uri ih =>
    unfold Session.remove
    split
    · exact faithful_of_known_empty rfl
    · exact ih
  | configure _ change _ => exact faithful_of_known_empty rfl
  | ask _ asks ih => exact asks.looks.stable.faithful _ ih

/-- The answer to a question in a reachable session. -/
theorem Reachable.answer {s : Session} (h : s.Reachable) {α : Type} {q : Query α}
    (asks : Asks q) : (q.run s).1 = q.answer s.workspace :=
  asks.looks.stable.value s h.faithful

end Session
end ProtoAtlas
