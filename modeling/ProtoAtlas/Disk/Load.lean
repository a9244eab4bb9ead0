/-
# Loading files from disk

Loading a file reads and parses it, registers it in the session under the URI of its
path, and then loads what it imports, depth first.  An import is looked for in the
directory of the importing file and then in each of the import directories.  Imports
that a registered stub serves are not looked for.

No path is visited twice, whether it was asked for or an import led to it.  A file that
cannot be read is a fault where it is asked for first, and an event where an import leads
to it first; asked for after that, it is passed over.  Paths are compared by their parts,
so a file that two paths lead to is loaded under each of them.
-/

import ProtoAtlas.Disk.Basic
import ProtoAtlas.Workspace.Session

namespace ProtoAtlas

namespace Disk

/-- The first of the places an import path may mean that is a file. -/
def firstFile? (d : Disk) (path : Text) : List Text → Except DiskFault (Option DiskPath)
  | [] => .ok none
  | directory :: rest =>
    match d.resolve (Path.join directory path) with
    | .error fault => .error fault
    | .ok place =>
      match d.walk [] place with
      | .file _ => .ok (some place)
      | .nameTooLong => .error (.nameTooLong place)
      | _ => d.firstFile? path rest

/-- The file an import path means for a file in a directory. -/
def importTarget? (d : Disk) (directories : List Text) (directory : DiskPath) (path : Text) :
    Except DiskFault (Option DiskPath) :=
  d.firstFile? path (directory.text :: directories)

end Disk

/-- The state of loading. -/
structure Loading where
  session : Session
  /-- The paths that were begun. -/
  visited : List DiskPath
  /-- The URIs that were registered, in order. -/
  loaded : List Text

/-- A step of loading.  What was loaded before a fault stays loaded. -/
abbrev Load := EStateM DiskFault Loading

namespace Load

/-- Notes an event in the session. -/
def note (e : Event) : Load Unit :=
  modify fun l => { l with session := l.session.noted e }

/-- A result that may be a fault. -/
def ofExcept {α : Type} : Except DiskFault α → Load α
  | .ok a => pure a
  | .error fault => throw fault

/-- Whether a registered stub serves an import path. -/
def servedByStub (path : Text) : Load Bool := do
  let w := (← get).session.workspace
  return Stub.isKnown path && (w.file? (Uri.ofBuiltin path)).isSome

/-- Registers the text of a file. -/
def register (path : DiskPath) (source : Text) : Load SchemaFile := do
  let uri := Uri.ofPath path.text
  let tree := SchemaFile.parse uri source
  modify fun l => { l with
    session := l.session.update (FileRecord.ofTree uri tree none)
    loaded := l.loaded ++ [uri] }
  return tree

/-- Loads a file and what it imports; `depth` bounds how deep imports nest. -/
def file (d : Disk) (directories : List Text) : Nat → DiskPath → Load Unit
  | 0, _ => pure ()
  | depth + 1, path => do
    if (← get).visited.contains path then return
    modify fun l => { l with visited := path :: l.visited }
    let tree ← register path (← ofExcept (d.read path))
    tree.imports.forM fun imported => do
      let written := imported.path.text
      if ← servedByStub written then return
      match ← ofExcept (d.importTarget? directories path.dropLast written) with
      | none => note (.importNotOnDisk written path.text)
      | some target =>
        tryCatch (file d directories depth target) fun fault =>
          if fault.isReading then note (.importUnreadable target.text path.text fault.message)
          else throw fault

/-- How deep imports can nest: every file on the way is another file of the disk. -/
def maxDepth (d : Disk) : Nat :=
  d.contents.length + 2

/-- Loads files and all they import. -/
def files (d : Disk) (directories : List Text) (paths : List Text) : Load Unit :=
  paths.forM fun path => do
    file d directories (maxDepth d) (← ofExcept (d.resolve path))

end Load

/-- Loads files with all they import into a session.  The answer is the URIs that were
loaded, in order, or the first fault. -/
def Session.load (s : Session) (d : Disk) (directories paths : List Text) :
    Except DiskFault (List Text) × Session :=
  match (Load.files d directories paths).run ⟨s, [], []⟩ with
  | .ok _ l => (.ok l.loaded, l.session)
  | .error fault l => (.error fault, l.session)

end ProtoAtlas
