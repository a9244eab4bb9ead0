/-
# What a run needs of a disk

A run works on a disk that is known as a whole.  Of a real disk only a small part
matters: the places that the arguments name, and the places that the imports of known
files may mean.  `wanted` lists these for what is known so far, so a disk can be looked
at step by step until nothing new is wanted.
-/

import ProtoAtlas.Command.Run

namespace ProtoAtlas

/-- The places the parts of a path lead through, the start included. -/
def Disk.stationsFrom (place : DiskPath) : List Text → List DiskPath
  | [] => [place]
  | part :: rest =>
    place :: stationsFrom (if part = Path.up then place.dropLast else place ++ [part]) rest

/-- The places a path text leads through. -/
def Disk.stations (d : Disk) (path : Text) : List DiskPath :=
  Disk.stationsFrom (d.startOf path) (Path.parts path)

namespace Command

/-- The paths a file imports; none if it is no text. -/
def importsOfBytes (bytes : List UInt8) : List Text :=
  match Utf8.decode bytes with
  | .ok source => (SchemaFile.parse [] (Disk.unifyLineEnds source)).imports.map (·.path.text)
  | .error _ => []

/-- The places the imports of a known file may mean. -/
def wantedImports (d : Disk) (directories : List Text) (file : DiskPath) (bytes : List UInt8) :
    List DiskPath :=
  (importsOfBytes bytes).flatMap fun path =>
    (DiskPath.text file.dropLast :: directories).flatMap fun directory =>
      d.stations (Path.join directory path)

/-- The places that matter for loading files with import directories, as far as the
disk is known. -/
def wanted (d : Disk) (directories files : List Text) : List DiskPath :=
  (files ++ directories).flatMap d.stations ++
    d.contents.flatMap fun
      | (file, some bytes) => wantedImports d directories file bytes
      | (_, none) => []

/-- Looks at places of a disk until nothing new is wanted.  `probe` tells what stands at a
place. -/
partial def survey {m : Type → Type} [Monad m]
    (probe : DiskPath → m (List (DiskPath × Option (List UInt8)))) (directories files : List Text)
    (d : Disk) (seen : List DiskPath) : m Disk := do
  match ((wanted d directories files).filter (!seen.contains ·)).eraseDups with
  | [] => return d
  | new =>
    let found ← new.mapM probe
    survey probe directories files { d with contents := d.contents ++ found.flatten } (new ++ seen)

end Command
end ProtoAtlas
