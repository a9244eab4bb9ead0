/-
# Remembered imports are current

A session looks an import up once and remembers what it found, also that it found
nothing.  Loading or removing a file and changing the settings make it forget, so what
it remembers never outlives the workspace it was looked up in: in every reachable
session an import means what the workspace says now, and this is a loaded file.  No
question can tell whether anything is remembered at all.
-/

import ProtoAtlas.Proofs.Workspace.Visibility

namespace ProtoAtlas
namespace Session

/-- The session without what it remembers about imports. -/
def forgetting (s : Session) : Session := { s with known := ∅ }

theorem faithful_forgetting (s : Session) : s.forgetting.Faithful :=
  faithful_of_known_empty rfl

/-- A question is answered alike whether the session remembers or not. -/
theorem Reachable.answer_forgetting {s : Session} (h : s.Reachable) {α : Type} {q : Query α}
    (asks : Asks q) : (q.run s).1 = (q.run s.forgetting).1 := by
  rw [h.answer asks, asks.looks.stable.value s.forgetting s.faithful_forgetting]
  rfl

end Session

theorem Workspace.IsLoaded.exists_mem {w : Workspace} {uri : Text} (h : w.IsLoaded uri) :
    ∃ r ∈ w.files, r.uri = uri := by
  obtain ⟨r, hr, same⟩ := List.find?_isSome.1 h
  exact ⟨r, hr, of_decide_eq_true same⟩

/-- **What is remembered about imports cannot be seen.**  In every reachable session,
whatever was loaded, removed, configured and asked before, an import means what the
workspace says at this moment.  If it means a file, that file is loaded now.  And every
question has the answer it would have if nothing were remembered. -/
theorem remembered_imports_are_current (s : Session) (h : s.Reachable) (importer path : Text) :
    ((Session.resolveImport importer path).run s).1 =
      s.workspace.findImport? importer (Path.normalize path) ∧
    (∀ target, ((Session.resolveImport importer path).run s).1 = some target →
      ∃ r ∈ s.workspace.files, r.uri = target) ∧
    ∀ (α : Type) (q : Query α), Session.Asks q → (q.run s).1 = (q.run s.forgetting).1 := by
  have current := Session.value_resolveImport importer path h.faithful
  refine ⟨current, fun target found => ?_, fun α q asks => h.answer_forgetting asks⟩
  rw [current] at found
  exact (Workspace.isLoaded_of_findImport? found).exists_mem

namespace LateFile

/-- A file that imports another one. -/
def importing : FileRecord :=
  FileRecord.ofTree "file:///a.proto" (SchemaFile.parse "a" "import \"b.proto\" ;") none

/-- The file it means. -/
def imported : FileRecord :=
  FileRecord.ofTree "file:///b.proto" (SchemaFile.parse "b" "message B \x7b \x7d") none

/-- Looks the import up. -/
def ask (s : Session) : Session :=
  ((Session.resolveImport "file:///a.proto" "b.proto").run s).2

/-- The import is looked up before the file it means is loaded, and once more
afterwards. -/
def session : Session := ask ((ask (Session.empty.update importing)).update imported)

/-- The import is found, and not remembered as missing. -/
theorem import_is_found : session.Reachable ∧
    ((Session.resolveImport "file:///a.proto" "b.proto").run session).1 =
      some ("file:///b.proto" : Text) := by
  have reachable : session.Reachable :=
    (((Session.Reachable.new.update _ _ _ none).ask (.resolveImport _ _)).update _ _ _ none).ask
      (.resolveImport _ _)
  have asked : ∀ s : Session, (ask s).workspace = s.workspace :=
    Session.keeps_resolveImport _ _
  have files : session.workspace = (Session.empty.workspace.update importing).update imported := by
    rw [session, asked, Session.update, Session.changed, asked]
    rfl
  refine ⟨reachable, ?_⟩
  rw [(remembered_imports_are_current session reachable "file:///a.proto" "b.proto").1, files]
  decide +kernel

end LateFile
end ProtoAtlas
