/-
# Sessions

A session is a workspace in use.  It remembers which file an import path meant, as
long as neither the files nor the settings change, and it keeps a log of events.
Queries run in the session they ask.
-/

import Std.Data.HashMap
import ProtoAtlas.Builtin.Catalog
import ProtoAtlas.Grammar.File
import ProtoAtlas.Workspace.Event
import ProtoAtlas.Workspace.Import

namespace ProtoAtlas

/-- A workspace in use. -/
structure Session where
  workspace : Workspace
  /-- What import paths meant, by importing file and path as written. -/
  known : Std.HashMap (Text × Text) (Option Text)
  /-- The events, the latest first. -/
  log : List Event

/-- A question asked in a session. -/
abbrev Query := StateM Session

namespace Session

/-- A session on a workspace that has just changed. -/
def changed (s : Session) (w : Workspace) (events : List Event) : Session where
  workspace := w
  known := ∅
  log := events ++ s.log

/-- Registers a file. -/
def update (s : Session) (r : FileRecord) : Session :=
  s.changed (s.workspace.update r) [.registered r.uri r.symbols.length]

/-- Removes a file, if it is loaded. -/
def remove (s : Session) (uri : Text) : Session :=
  if (s.workspace.file? uri).isSome then s.changed (s.workspace.remove uri) [.removed uri] else s

/-- Changes a setting. -/
def configure (s : Session) (change : Settings.Change) : Session :=
  s.changed { s.workspace with settings := s.workspace.settings.set change } []

/-- A session without files. -/
def empty : Session where
  workspace := Workspace.empty Settings.empty
  known := ∅
  log := []

instance : Inhabited Session := ⟨empty⟩

/-- The record of a stub. -/
def stubRecord (stub : Stub) : FileRecord :=
  let uri := Uri.ofBuiltin stub.path
  FileRecord.ofTree uri (SchemaFile.parse uri stub.source) (some stub.path)

/-- A session with all stubs. -/
def withStubs : Session :=
  Stub.catalog.foldl (fun s stub => s.update (stubRecord stub)) empty

/-- The events, the earliest first. -/
def events (s : Session) : List Event :=
  s.log.reverse

/-- A session with one more event. -/
def noted (s : Session) (e : Event) : Session :=
  { s with log := e :: s.log }

/-- Notes an event. -/
def note (e : Event) : Query Unit :=
  modify (·.noted e)

/-- The workspace of the session. -/
def current : Query Workspace := do
  return (← get).workspace

/-- The file an import path means, looked up once. -/
def resolveImport (importer path : Text) : Query (Option Text) := do
  let s ← get
  match s.known[(importer, path)]? with
  | some target => return target
  | none =>
    let target := s.workspace.findImport? importer (Path.normalize path)
    set { s with known := s.known.insert (importer, path) target }
    if target.isNone then note (.importUnresolved path importer)
    return target

end Session
end ProtoAtlas
