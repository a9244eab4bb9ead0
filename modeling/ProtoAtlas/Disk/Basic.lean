/-
# Disks

A disk is a finite tree of directories and files, without links, together with the
working directory that relative paths start from.  It is kept as the list of its
files and of its directories worth naming; every path above one of these is a
directory too.

A name on disk is a sequence of bytes, and a text can spell it in more than one way,
since some surrogates stand for single bytes.  What is looked for under a second
spelling of its path is listed under that spelling too (`respelled`).

There are two ways to follow a path.  `resolve` works on the text alone: `..` takes
away the part before it, whatever that is.  `look` walks: every part but the last
must be a directory, also before `..`.
-/

import ProtoAtlas.Path.Lexical
import ProtoAtlas.Text.Quoted
import ProtoAtlas.Text.Utf8

namespace ProtoAtlas

/-- The parts of an absolute path, without `.` and `..`. -/
abbrev DiskPath := List Text

/-- The text of an absolute path. -/
def DiskPath.text (p : DiskPath) : Text :=
  Path.slash :: Text.join [Path.slash] p

/-- What can go wrong with a file. -/
inductive DiskFault where
  | notFound (path : DiskPath)
  | isDirectory (path : DiskPath)
  | notDirectory (path : DiskPath)
  | nameTooLong (path : DiskPath)
  | undecodable (fault : Utf8.Fault)
  /-- A path with the code point zero. -/
  | nulInPath
  /-- A path with a surrogate that stands for no byte. -/
  | unencodable (c : CodePoint) (position : Nat)
  deriving DecidableEq

namespace DiskFault

/-- The number and the words the system has for a fault, and the path. -/
def systemMessage (number : Nat) (words : Text) (path : DiskPath) : Text :=
  "[Errno " ++ Text.ofNat number ++ "] " ++ words ++ ": " ++ path.text.quoted

/-- The text of a fault. -/
def message : DiskFault → Text
  | .notFound path => systemMessage 2 "No such file or directory" path
  | .isDirectory path => systemMessage 21 "Is a directory" path
  | .notDirectory path => systemMessage 20 "Not a directory" path
  | .nameTooLong path => systemMessage 36 "File name too long" path
  | .undecodable fault => fault.message
  | .nulInPath => "embedded null byte"
  | .unencodable c position =>
    "'utf-8' codec can't encode character " ++ Text.quoted [c] ++ " in position " ++
      Text.ofNat position ++ ": surrogates not allowed"

/-- Whether the system reports a fault. -/
def isSystem : DiskFault → Bool
  | .notFound _ => true
  | .isDirectory _ => true
  | .notDirectory _ => true
  | .nameTooLong _ => true
  | _ => false

/-- Whether a fault is one of reading a file, and not one of a path that names none. -/
def isReading : DiskFault → Bool
  | .nulInPath => false
  | .unencodable _ _ => false
  | _ => true

end DiskFault

/-- What a path leads to. -/
inductive Look where
  | file (bytes : List UInt8)
  | directory
  | missing
  /-- A part before the last is a file. -/
  | belowFile
  /-- A part is longer than a name may be. -/
  | nameTooLong
  deriving DecidableEq

/-- A finite tree of directories and files. -/
structure Disk where
  /-- Files with their bytes, and directories. -/
  contents : List (DiskPath × Option (List UInt8))
  workingDirectory : DiskPath
  /-- The most bytes a name may have, if there is a limit. -/
  nameLimit : Option Nat
  deriving Inhabited

namespace Disk

/-- The name limit of common file systems. -/
def usualNameLimit : Nat := 255

/-- Whether a name is longer than a disk allows. -/
def isTooLong (d : Disk) (name : Text) : Bool :=
  d.nameLimit.any (· < (Utf8.encode name).length)

/-- What stands at a path. -/
def node (d : Disk) (path : DiskPath) : Look :=
  match d.contents.find? (·.1 = path) with
  | some (_, some bytes) => .file bytes
  | some (_, none) => .directory
  | none =>
    if path.isEmpty || d.contents.any (path.isPrefixOf ·.1) then .directory else .missing

/-- What a disk lists at a place under another spelling of its path, listed at that
place. -/
def respelled (d : Disk) (place : DiskPath) : List (DiskPath × Option (List UInt8)) :=
  let names := place.map Utf8.encode
  match d.contents.find? (·.1.map Utf8.encode = names) with
  | some (_, content) => [(place, content)]
  | none => if d.contents.any (names.isPrefixOf <| ·.1.map Utf8.encode) then [(place, none)] else []

/-- Follows the parts of a path from a place. -/
def walk (d : Disk) (place : DiskPath) : List Text → Look
  | [] => d.node place
  | part :: rest =>
    match d.node place with
    | .directory =>
      if part = Path.up then d.walk place.dropLast rest
      else if d.isTooLong part then .nameTooLong
      else d.walk (place ++ [part]) rest
    | .file _ => .belowFile
    | other => other

/-- Where a path text starts. -/
def startOf (d : Disk) (path : Text) : DiskPath :=
  if Path.isAbsolute path then [] else d.workingDirectory

/-- What a path text leads to. -/
def look (d : Disk) (path : Text) : Look :=
  d.walk (d.startOf path) (Path.parts path)

/-- Whether a code point cannot be part of a file name: a surrogate other than those
that stand for single bytes. -/
def isUnencodable (c : CodePoint) : Bool :=
  c.isSurrogate && !(0xDC80 ≤ c.val && c.val ≤ 0xDCFF)

/-- Goes on by one part of a path, by its text alone. -/
def follow (place : DiskPath) (part : Text) : Except DiskFault DiskPath :=
  if part = Path.up then .ok place.dropLast
  else
    let next := place ++ [part]
    match part.find? isUnencodable with
    | some c => .error (.unencodable c ((DiskPath.text next).length - part.length + part.idxOf c))
    | none => if part.any (·.val = 0) then .error .nulInPath else .ok next

/-- The absolute path a path text stands for, by its text alone. -/
def resolve (d : Disk) (path : Text) : Except DiskFault DiskPath :=
  (Path.parts path).foldlM follow (d.startOf path)

/-- Line ends of all kinds become line feeds. -/
def unifyLineEnds : Text → Text
  | [] => []
  | c :: cs =>
    if c = CodePoint.ofChar '\r' then
      match cs with
      | next :: rest =>
        if next = CodePoint.ofChar '\n' then next :: unifyLineEnds rest
        else CodePoint.ofChar '\n' :: unifyLineEnds (next :: rest)
      | [] => [CodePoint.ofChar '\n']
    else c :: unifyLineEnds cs

/-- The text of a file. -/
def read (d : Disk) (path : DiskPath) : Except DiskFault Text :=
  match d.walk [] path with
  | .file bytes =>
    match Utf8.decode bytes with
    | .ok text => .ok (unifyLineEnds text)
    | .error fault => .error (.undecodable fault)
  | .directory => .error (.isDirectory path)
  | .missing => .error (.notFound path)
  | .belowFile => .error (.notDirectory path)
  | .nameTooLong => .error (.nameTooLong path)

end Disk
end ProtoAtlas
