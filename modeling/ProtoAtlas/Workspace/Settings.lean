/-
# Settings of a workspace

Where imports are looked for: directories to search, roots of the workspace, and
mappings that let a virtual start of an import path stand for a directory.
-/

import ProtoAtlas.Path.Lexical

namespace ProtoAtlas

/-- A virtual start of import paths and the directory it stands for. -/
structure PathMapping where
  virtual : Text
  directory : Text
  deriving DecidableEq

namespace PathMapping

/-- Adds a mapping.  A virtual path that is already mapped keeps its place and takes
the new directory. -/
def put (mappings : List PathMapping) (m : PathMapping) : List PathMapping :=
  if mappings.any (·.virtual = m.virtual) then
    mappings.map fun old => if old.virtual = m.virtual then m else old
  else mappings ++ [m]

/-- Mappings by virtual path: of equal ones the first place and the last directory. -/
def table (mappings : List PathMapping) : List PathMapping :=
  mappings.foldl put []

/-- A mapping with both paths normalized and no slash around the virtual one. -/
def normalize (m : PathMapping) : PathMapping where
  virtual := (Path.normalize m.virtual).strip (· = Path.slash)
  directory := Path.normalize m.directory

end PathMapping

/-- Where imports are looked for. -/
structure Settings where
  importPaths : List Text
  workspaceRoots : List Text
  mappings : List PathMapping
  deriving DecidableEq

namespace Settings

/-- Settings that name no directory. -/
def empty : Settings := ⟨[], [], []⟩

instance : Inhabited Settings := ⟨empty⟩

/-- Settings with other directories to search. -/
def withImportPaths (s : Settings) (paths : List Text) : Settings :=
  { s with importPaths := paths.map Path.normalize }

/-- Settings with other roots. -/
def withWorkspaceRoots (s : Settings) (roots : List Text) : Settings :=
  { s with workspaceRoots := roots.map Path.normalize }

/-- Settings with other mappings.  Virtual paths count as equal first as they are
written and then as they are normalized. -/
def withMappings (s : Settings) (mappings : List PathMapping) : Settings :=
  { s with mappings := PathMapping.table ((PathMapping.table mappings).map PathMapping.normalize) }

/-- One of the three settings, with what it is set to. -/
inductive Change where
  | importPaths (paths : List Text)
  | workspaceRoots (roots : List Text)
  | mappings (mappings : List PathMapping)

/-- Settings of which one is set. -/
def set (s : Settings) : Change → Settings
  | .importPaths paths => s.withImportPaths paths
  | .workspaceRoots roots => s.withWorkspaceRoots roots
  | .mappings mappings => s.withMappings mappings

/-- All directories that import paths are read from, in order. -/
def roots (s : Settings) : List Text :=
  s.importPaths ++ s.workspaceRoots

end Settings
end ProtoAtlas
