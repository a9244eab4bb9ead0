/-
# Imports inside a workspace

Which loaded file an import path means, and which path to write to import a file.

An import path means, in this order: the file with that logical path; the file at
one of the places the settings and the importing file give; a file whose path ends
with the import path; a file with the same base name.
-/

import ProtoAtlas.Workspace.Basic

namespace ProtoAtlas
namespace Workspace

/-- The paths of the files that are no stubs, with their URIs. -/
def diskFiles (w : Workspace) : List (Text × Text) :=
  (w.files.filter fun r => !Uri.isBuiltin r.uri).map fun r => (r.uri, Uri.toPath r.uri)

/-- The directory a file stands in. -/
def directoryOf (uri : Text) : Text :=
  Path.parent (Uri.toPath uri)

/-- The places an import path may mean, for a file that imports it. -/
def importCandidates (settings : Settings) (importer path : Text) : List Text :=
  settings.mappings.filterMap
      (fun m => (Path.inside? m.virtual path).map (Path.join m.directory)) ++
    (settings.roots ++ [directoryOf importer]).map fun root => Path.clean (Path.join root path)

/-- The loaded file that a normalized import path means. -/
def findImport? (w : Workspace) (importer path : Text) : Option Text :=
  let onDisk := w.diskFiles
  let logical := w.files.find? (·.logicalPath = some path)
  logical.map (·.uri) <|>
    (importCandidates w.settings importer path).findSome?
      (fun place => (onDisk.find? (·.2 = place)).map (·.1)) <|>
    (onDisk.find? fun file => Path.endsWith file.2 path).map (·.1) <|>
    (onDisk.find? fun file => Path.base file.2 = Path.base path).map (·.1)

/-- The tail of a text from the last occurrence of a pattern on. -/
def lastOccurrence? (pattern : Text) : Text → Option Text
  | [] => none
  | c :: cs =>
    match lastOccurrence? pattern cs with
    | some tail => some tail
    | none => if pattern.isPrefixOf (c :: cs) then some (c :: cs) else none

/-- Of two texts the shorter, and of equally long ones the first. -/
def shorter (best : Option Text) (t : Text) : Option Text :=
  match best with
  | none => some t
  | some b => if t.length < b.length then some t else some b

/-- What is left of a path inside one of the roots, where it is shortest. -/
def insideRoots? (settings : Settings) (path : Text) : Option Text :=
  (settings.roots.filterMap fun root => Path.inside? root path).foldl shorter none

/-- The way to a path from the directory of an importing file, or its base name if
the way goes up.  There is none if the path is empty. -/
def nearby? (working importer path : Text) : Option Text :=
  let directory := directoryOf importer
  if directory.isEmpty || Path.isAbsolute path != Path.isAbsolute directory then
    some (Path.base path)
  else
    (Path.wayFrom? working directory path).map fun way =>
      if Path.up.isPrefixOf way then Path.base path else way

/-- The path by which a file should import another.  There is none if the other has
an empty path and would be reached from the directory of the first.  The working directory
has a part only in relative paths. -/
def suggestImport? (w : Workspace) (working importer target : Text) : Option Text :=
  let path := Uri.toPath target
  match Uri.builtinPath? target, (w.file? target).bind (·.logicalPath) with
  | some stub, _ => some stub
  | none, some (c :: cs) => some (c :: cs)
  | none, _ =>
    match lastOccurrence? "/google/" path with
    | some tail => some tail.tail
    | none =>
      let mapped := w.settings.mappings.findSome? fun m =>
        (Path.inside? m.directory path).map fun rest => m.virtual ++ Path.slash :: rest
      match mapped, insideRoots? w.settings path with
      | some suggestion, _ => some suggestion
      | none, some rest => some rest
      | none, none => nearby? working importer path

end Workspace
end ProtoAtlas
