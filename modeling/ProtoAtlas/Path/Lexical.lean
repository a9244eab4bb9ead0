/-
# Paths as text

Everything about a path that can be told from its text: parents and base names,
joining, cleaning, and how to get from one path to another.  Parts are separated
by slashes; `normalize` also accepts backslashes.

`clean` removes empty parts and `.`, and lets `..` take away the part before it.
An absolute path has no part above its root; a relative path keeps the `..` it
starts with.
-/

import ProtoAtlas.Text.CodePoint

namespace ProtoAtlas
namespace Path

/-- The character between the parts of a path. -/
def slash : CodePoint := CodePoint.ofChar '/'

/-- Backslashes become slashes, and slashes at the end are dropped unless nothing
else is left. -/
def normalize (path : Text) : Text :=
  let path := path.replace '\\' '/'
  if 1 < path.length && path.getLast? = some slash then
    match path.dropEndWhile (· = slash) with
    | [] => [slash]
    | trimmed => trimmed
  else path

/-- What stands after the last slash. -/
def base (path : Text) : Text :=
  (path.reverse.takeWhile (· ≠ slash)).reverse

/-- What stands before the last slash, without slashes at its end unless it has
nothing else. -/
def parent (path : Text) : Text :=
  let head := path.dropEndWhile (· ≠ slash)
  if head.all (· = slash) then head else head.dropEndWhile (· = slash)

/-- Whether a path starts at the root. -/
def isAbsolute (path : Text) : Bool :=
  path.head? = some slash

/-- A path read from a directory; an absolute path stands for itself. -/
def join (directory path : Text) : Text :=
  if isAbsolute path then path
  else if directory.isEmpty || directory.getLast? = some slash then directory ++ path
  else directory ++ slash :: path

/-- The part that names the directory above. -/
def up : Text := ".."

/-- The part that names the directory itself. -/
def here : Text := "."

/-- Adds a part to the parts before it, the latest first. -/
def addPart (absolute : Bool) (parts : List Text) (part : Text) : List Text :=
  if part.isEmpty || part = here then parts
  else if part ≠ up then part :: parts
  else
    match parts with
    | [] => if absolute then [] else [up]
    | last :: rest => if last = up then up :: parts else rest

/-- The parts of a path after cleaning. -/
def cleanParts (path : Text) : List Text :=
  ((path.splitOn slash).foldl (addPart (isAbsolute path)) []).reverse

/-- How many slashes a cleaned path starts with.  Exactly two are kept. -/
def rootSlashes (path : Text) : Nat :=
  match (path.takeWhile (· = slash)).length with
  | 0 => 0
  | 2 => 2
  | _ => 1

/-- A path without empty parts, `.`, and `..` after a part. -/
def clean (path : Text) : Text :=
  match List.replicate (rootSlashes path) slash ++ Text.join [slash] (cleanParts path) with
  | [] => here
  | cleaned => cleaned

/-- The parts the two lists start with in common are dropped from both. -/
def dropCommon : List Text → List Text → List Text × List Text
  | a :: as, b :: bs => if a = b then dropCommon as bs else (a :: as, b :: bs)
  | as, bs => (as, bs)

/-- The way from a directory to a path, both read from the working directory; none to the
empty path. -/
def wayFrom? (working directory path : Text) : Option Text :=
  if path.isEmpty then none
  else
    let (ups, downs) := dropCommon (cleanParts (join working directory))
      (cleanParts (join working path))
    match ups.map (fun _ => up) ++ downs with
    | [] => some here
    | parts => some (Text.join [slash] parts)

/-- What is left of a path inside a directory. -/
def inside? (directory path : Text) : Option Text :=
  let directory := normalize directory
  let start := if directory.getLast? = some slash then directory else directory ++ [slash]
  Text.dropPrefix? start path

/-- Whether a path ends with another at the boundary of a part. -/
def endsWith (path tail : Text) : Bool :=
  path = tail || (slash :: tail).isSuffixOf path

/-- The parts of a path that name something: no empty ones and no `.`. -/
def parts (path : Text) : List Text :=
  (path.splitOn slash).filter fun part => !part.isEmpty && part ≠ here

/-- The extension of a path, from the last dot of its last part on.  A dot at
either end of the part starts none. -/
def suffix (path : Text) : Text :=
  let name := ((parts path).getLast?).getD []
  let stem := name.dropEndWhile (· ≠ CodePoint.ofChar '.')
  if stem.length ≤ 1 || stem.length = name.length then []
  else name.drop (stem.length - 1)

/-- Whether a path is that of a schema file. -/
def isSchema (path : Text) : Bool :=
  (suffix path).lower = (".proto" : Text)

/-- A path as it is shown: without empty parts and `.`, but with every `..`. -/
def shown (path : Text) : Text :=
  match List.replicate (rootSlashes path) slash ++ Text.join [slash] (parts path) with
  | [] => here
  | text => text

end Path
end ProtoAtlas
