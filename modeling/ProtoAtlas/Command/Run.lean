/-
# Running a command

A run reads files from a disk and prints lines, some of them as errors.  Events of the
session are printed among the errors as they happen: warnings always, the others only
if the run is verbose.
-/

import ProtoAtlas.Check.File
import ProtoAtlas.Command.Arguments
import ProtoAtlas.Disk.Load
import ProtoAtlas.Text.Blank
import ProtoAtlas.Workspace.References

namespace ProtoAtlas
namespace Command

/-- A printed line. -/
inductive Line where
  | output (text : Text)
  | error (text : Text)
  deriving DecidableEq

/-- Why a run broke off. -/
inductive Failure where
  | disk (fault : DiskFault)
  /-- A number was too long to print. -/
  | longNumber
  deriving DecidableEq

/-- The state of a run. -/
structure Progress where
  session : Session
  verbose : Bool
  /-- The lines printed so far, the latest first. -/
  printed : List Line

/-- A step of a run. -/
abbrev Run := EStateM Failure Progress

/-- The import directories as they are named: every value may name several, with commas
between them. -/
def directoryNames (values : List Text) : List Text :=
  let parts := values.flatMap fun v => (Path.shown v).splitOn (CodePoint.ofChar ',')
  (parts.map Text.trim).filter (!·.isEmpty)

namespace Run

/-- Prints a line. -/
def print (text : Text) : Run Unit :=
  modify fun p => { p with printed := .output text :: p.printed }

/-- Prints a line as an error. -/
def printError (text : Text) : Run Unit :=
  modify fun p => { p with printed := .error text :: p.printed }

/-- Prints the events of the session and forgets them. -/
def printEvents : Run Unit :=
  modify fun p =>
    let shown := p.session.events.filter fun e => p.verbose || e.level = .warning
    { p with
      session := { p.session with log := [] }
      printed := (shown.map fun e => Line.error e.line).reverse ++ p.printed }

/-- Asks the session a question. -/
def ask {α : Type} (query : Query α) : Run α := do
  let p ← get
  let (answer, session) := query.run p.session
  set { p with session := session }
  printEvents
  return answer

/-- A result that may be a fault. -/
def ofExcept {α : Type} : Except DiskFault α → Run α
  | .ok a => pure a
  | .error fault => throw (.disk fault)

/-- The import directories, with a warning for each that is none. -/
def importDirectories (d : Disk) (values : List Text) : Run (List Text) :=
  (directoryNames values).mapM fun part => do
    let place ← ofExcept (d.resolve part)
    match d.walk [] place with
    | .directory => pure ()
    | .nameTooLong => throw (.disk (.nameTooLong place))
    | _ => printError ("Warning: Import path is not a directory: " ++ part)
    return place.text

/-- Sets up the session. -/
def prepare (d : Disk) (i : Invocation) (directories : List Text) : Run Unit := do
  let roots ← i.workspaceRoots.mapM fun root => return (← ofExcept (d.resolve root)).text
  modify fun p => { p with
    session := (Session.withStubs.configure (.importPaths directories)).configure
      (.workspaceRoots roots) }
  printEvents

/-- Whether a path names a file or a directory. -/
def exists? (d : Disk) (path : Text) : Run Bool := do
  if path.any fun c => c.val = 0 || Disk.isUnencodable c then return false
  match d.look path with
  | .file _ => return true
  | .directory => return true
  | .nameTooLong => throw (.disk (.nameTooLong (Path.parts path)))
  | _ => return false

/-- Loads a file; false if it could not be loaded. -/
def loadFile (d : Disk) (directories : List Text) (file : Text) : Run Bool := do
  if ← exists? d file then
    let p ← get
    let (result, session) := p.session.load d directories [file]
    set { p with session := session }
    printEvents
    match result with
    | .ok _ => return true
    | .error fault =>
      if fault.isSystem then printError ("Error reading " ++ file ++ ": " ++ fault.message)
      else printError ("Error: " ++ file ++ ": " ++ fault.message)
      return false
  else
    printError ("Error: File not found: " ++ file)
    return false

/-- The URI of a file. -/
def uriOf (d : Disk) (file : Text) : Run Text := do
  return Uri.ofPath (← ofExcept (d.resolve file)).text

/-- Checks a file; false if it has errors. -/
def checkFile (d : Disk) (file : Text) : Run Bool := do
  print ("Checking " ++ file ++ "...")
  match ← ask (Check.file (← uriOf d file)) with
  | none => throw .longNumber
  | some issues =>
    let errors := Issue.errors issues
    errors.forM fun issue => printError ("Error: " ++ issue.text)
    (Issue.warnings issues).forM fun issue => printError ("Warning: " ++ issue.text)
    return errors.isEmpty

/-- The line of a symbol: its kind in ten columns, its full name, and where it is. -/
def symbolLine (s : Symbol) : Text :=
  "  " ++ s.kind.word.padRight 10 ++ " " ++ s.fullName ++ "  " ++ s.location.text

/-- Lists the symbols of a file. -/
def listFile (d : Disk) (file : Text) : Run Unit := do
  print (file ++ ":")
  let w ← ask Session.current
  (w.symbolsIn (← uriOf d file)).forM fun s => print (symbolLine s)

/-- Lists the references to a name. -/
def listReferences (name : Text) : Run Unit := do
  let found ← ask (Session.findReferences name)
  if found.isEmpty then printError ("No references to " ++ name)
  found.forM fun l => print l.text

/-- Runs an invocation; false if something went wrong with a file. -/
def invocation (d : Disk) (i : Invocation) : Run Bool := do
  let directories ← importDirectories d i.importPaths
  prepare d i directories
  let files := i.files.map Path.shown
  let loaded ← files.filterM (loadFile d directories)
  let complete := loaded.length = files.length
  match i.action with
  | .check =>
    let valid ← loaded.mapM (checkFile d)
    return complete && valid.all id
  | .symbols =>
    loaded.forM (listFile d)
    return complete
  | .references =>
    listReferences i.name
    return complete

end Run

/-- What a run came to. -/
structure Outcome where
  exitCode : Nat
  lines : List Line
  deriving DecidableEq

/-- What is printed without a command. -/
def usage : List Text :=
  ["Usage: protosense <command> [options]", "Commands: check, symbols, references",
    "Use 'protosense <command> --help' for more information"]

/-- Runs an invocation. -/
def Invocation.run (d : Disk) (i : Invocation) : Except Failure Outcome :=
  match (Run.invocation d i).run ⟨Session.empty, i.verbose, []⟩ with
  | .ok true p => .ok ⟨0, p.printed.reverse⟩
  | .ok false p => .ok ⟨1, p.printed.reverse⟩
  | .error failure _ => .error failure

/-- What the arguments came to. -/
inductive Result where
  /-- The arguments asked for help or were wrong. -/
  | stopped (stop : Stop)
  | failed (failure : Failure)
  | finished (outcome : Outcome)
  deriving DecidableEq

/-- Runs a command line. -/
def run (d : Disk) (words : List Text) : Result :=
  match readAll words with
  | .error stop => .stopped stop
  | .ok none => .finished ⟨1, usage.map .error⟩
  | .ok (some i) =>
    match i.run d with
    | .ok outcome => .finished outcome
    | .error failure => .failed failure

/-- The exit code of a stop. -/
def Stop.exitCode : Stop → Nat
  | .help => 0
  | .misuse => 2

end Command
end ProtoAtlas
