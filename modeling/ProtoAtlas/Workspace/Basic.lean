/-
# Workspaces

A workspace holds the schema files that are loaded, one for each URI, in the order
they came in, and an index over their symbols.  A file that is loaded again keeps
its place; its earlier symbols leave the index and its new ones enter at the end.
-/

import ProtoAtlas.Path.Uri
import ProtoAtlas.Symbol.Declared
import ProtoAtlas.Symbol.Index
import ProtoAtlas.Workspace.Settings

namespace ProtoAtlas

/-- A loaded file. -/
structure FileRecord where
  uri : Text
  tree : SchemaFile
  /-- The path other files import it by, whatever its URI. -/
  logicalPath : Option Text
  symbols : List Symbol
  /-- The symbols are those the tree declares. -/
  symbols_eq : symbols = tree.symbols uri

namespace FileRecord

/-- The record of a tree.  A stub's logical path is that of its URI, and an empty
logical path counts as none given. -/
def ofTree (uri : Text) (tree : SchemaFile) (logicalPath : Option Text) : FileRecord where
  uri := uri
  tree := tree
  logicalPath :=
    match logicalPath with
    | some (c :: cs) => some (c :: cs)
    | _ => Uri.builtinPath? uri
  symbols := tree.symbols uri
  symbols_eq := rfl

/-- The paths a file imports. -/
def imports (r : FileRecord) : List Text :=
  r.tree.imports.map (·.path.text)

/-- The package of a file. -/
def package (r : FileRecord) : Text :=
  r.tree.packageName

end FileRecord

/-- The loaded files with their index, and where imports are looked for. -/
structure Workspace where
  settings : Settings
  files : List FileRecord
  index : SymbolIndex

namespace Workspace

/-- A workspace without files. -/
def empty (settings : Settings) : Workspace where
  settings := settings
  files := []
  index := SymbolIndex.empty

instance : Inhabited Workspace := ⟨empty Settings.empty⟩

/-- The file with a URI. -/
def file? (w : Workspace) (uri : Text) : Option FileRecord :=
  w.files.find? (·.uri = uri)

/-- The index without the symbols of a file. -/
def indexWithout (w : Workspace) (uri : Text) : SymbolIndex :=
  match w.file? uri with
  | none => w.index
  | some r => w.index.removeAll uri r.symbols

/-- The files with a record put in: in the place of the one with its URI, or last. -/
def putFile (files : List FileRecord) (r : FileRecord) : List FileRecord :=
  if files.any (·.uri = r.uri) then files.map fun old => if old.uri = r.uri then r else old
  else files ++ [r]

/-- Loads a file, in the place of an earlier one with its URI. -/
def update (w : Workspace) (r : FileRecord) : Workspace where
  settings := w.settings
  files := putFile w.files r
  index := (w.indexWithout r.uri).addAll r.symbols

/-- Removes a file. -/
def remove (w : Workspace) (uri : Text) : Workspace where
  settings := w.settings
  files := w.files.filter (·.uri ≠ uri)
  index := w.indexWithout uri

/-- The symbols of a file; none if it is not loaded. -/
def symbolsIn (w : Workspace) (uri : Text) : List Symbol :=
  match w.file? uri with
  | none => []
  | some r => r.symbols

/-- The symbols of all files, in the order of the files. -/
def allSymbols (w : Workspace) : List Symbol :=
  w.files.flatMap (·.symbols)

/-- A name without the dots it starts with. -/
def absoluteName (name : Text) : Text :=
  name.dropWhile (· = CodePoint.ofChar '.')

/-- The holder of a full name, which may start with dots. -/
def symbol? (w : Workspace) (fullName : Text) : Option Symbol :=
  w.index.holder? (absoluteName fullName)

/-- The package of a file; empty if it is not loaded. -/
def packageOf (w : Workspace) (uri : Text) : Text :=
  match w.file? uri with
  | none => []
  | some r => r.package

end Workspace
end ProtoAtlas
