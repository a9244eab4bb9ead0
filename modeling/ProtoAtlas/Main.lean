/-
# The command line

Reads the part of the disk that a run needs, runs, and prints.
-/

import ProtoAtlas.Command.Survey

namespace ProtoAtlas
namespace Command

/-- Looks at a place on the disk.  What cannot be read counts as missing, and so does
what has a name that is no text. -/
def probe (place : DiskPath) : IO (List (DiskPath × Option (List UInt8))) := do
  match Utf8.decode (Utf8.encode place.text) with
  | .error _ => return []
  | .ok text =>
    try
      if ← (← IO.FS.realPath text.render).isDir then return [(place, none)]
      return [(place, some (← IO.FS.readBinFile text.render).toList)]
    catch _ => return []

/-- Prints a line where it belongs. -/
def Line.print : Line → IO Unit
  | .output text => IO.println text.render
  | .error text => IO.eprintln text.render

/-- The text of a failure. -/
def Failure.message : Failure → Text
  | .disk fault => fault.message
  | .longNumber => "A number is too long to print"

/-- Runs the arguments and gives the exit code. -/
def main (words : List Text) : IO UInt32 := do
  let directory ← IO.currentDir
  let start : Disk :=
    ⟨[], Path.cleanParts (Text.ofString directory.toString), some Disk.usualNameLimit⟩
  let disk ←
    match readAll words with
    | .ok (some i) => survey probe (directoryNames i.importPaths) i.files start []
    | _ => pure start
  match run disk words with
  | .stopped stop =>
    let print : Text → Line := if stop = .help then .output else .error
    usage.forM fun text => (print text).print
    return UInt32.ofNat stop.exitCode
  | .failed failure =>
    (Line.error ("Error: " ++ failure.message)).print
    return 1
  | .finished outcome =>
    outcome.lines.forM Line.print
    return UInt32.ofNat outcome.exitCode

end Command
end ProtoAtlas

def main (arguments : List String) : IO UInt32 :=
  ProtoAtlas.Command.main (arguments.map ProtoAtlas.Text.ofString)
