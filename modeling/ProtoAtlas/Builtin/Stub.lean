/-
# Stubs of well-known files

A stub is a small schema file that comes with the library, so that an import such
as `google/protobuf/any.proto` needs nothing on disk.  A stub declares the types
and fields of the file it stands for.

A stub is kept as a head and a body of entries, and its source text is laid out
from them: the level, the package and the imports on a line each, then the body,
where a block indents its entries by two blanks.
-/

import ProtoAtlas.Text.CodePoint

namespace ProtoAtlas

/-- An entry of a stub's body. -/
inductive StubEntry where
  /-- A statement on a line of its own. -/
  | line (text : Text)
  /-- An empty line. -/
  | gap
  /-- A block with its entries on lines of their own. -/
  | block (head : Text) (body : List StubEntry)
  /-- A block on one line with one statement. -/
  | short (head : Text) (statement : Text)
  /-- A block without entries. -/
  | empty (head : Text)

instance : Coe String StubEntry := ⟨fun s => .line (Text.ofString s)⟩

namespace StubEntry

/-- A line inside a block.  An empty line has no blanks. -/
def indented (line : Text) : Text :=
  if line.isEmpty then [] else ("  " : Text) ++ line

mutual

/-- The lines of an entry. -/
def lines : StubEntry → List Text
  | .line text => [text]
  | .gap => [[]]
  | .block head body => (head ++ " \x7b") :: ((allLines body).map indented).concat "\x7d"
  | .short head statement => [head ++ " \x7b " ++ statement ++ " \x7d"]
  | .empty head => [head ++ " \x7b\x7d"]

/-- The lines of the entries of a body. -/
def allLines : List StubEntry → List Text
  | [] => []
  | entry :: rest => entry.lines ++ allLines rest

end

end StubEntry

/-- A stub. -/
structure Stub where
  /-- The path it is imported by. -/
  path : Text
  level : Text
  package : Text
  imports : List Text
  body : List StubEntry

/-- The lines of a stub's source. -/
def Stub.lines (s : Stub) : List Text :=
  ("syntax = \"" ++ s.level ++ "\";") :: ("package " ++ s.package ++ ";") ::
    s.imports.map (fun path => "import \"" ++ path ++ "\";") ++ StubEntry.allLines s.body

/-- The source text of a stub. -/
def Stub.source (s : Stub) : Text :=
  s.lines.flatMap fun line => line ++ "\n"

end ProtoAtlas
