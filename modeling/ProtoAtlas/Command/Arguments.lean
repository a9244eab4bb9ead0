/-
# Arguments of the command line

An invocation names a command, then flags and operands in any order:

| command | operands |
| --- | --- |
| `check` | files |
| `symbols` | files |
| `references` | a name, then files |

A long flag may be shortened as long as it stays unique, and takes its value after
`=` or as the next argument.  A short flag takes its value attached, after `=` or
next, and short flags without a value may be written together with the flags after
them.  After `--` everything is an operand.  The files are one run of operands
between flags.

Before a word is taken as a flag the following are taken as operands: the empty
word, `-`, what looks like a negative number, and what has a blank in it and is no
flag.
-/

import ProtoAtlas.Text.CodePoint
import ProtoAtlas.Text.Digit

namespace ProtoAtlas
namespace Command

/-- The flags. -/
inductive Flag where
  | help
  | importPath
  | workspaceRoot
  | verbose
  deriving DecidableEq

/-- Whether a flag takes a value. -/
def Flag.takesValue : Flag → Bool
  | .help => false
  | .importPath => true
  | .workspaceRoot => true
  | .verbose => false

/-- The spellings of flags. -/
abbrev FlagTable := List (Text × Flag)

/-- The flags before the command. -/
def outerFlags : FlagTable :=
  [("-h", .help), ("--help", .help)]

/-- The flags of every command. -/
def commandFlags : FlagTable :=
  [("-h", .help), ("--help", .help), ("-I", .importPath), ("--proto_path", .importPath),
    ("--import_path", .importPath), ("--workspace-root", .workspaceRoot), ("-v", .verbose),
    ("--verbose", .verbose)]

/-- Why reading the arguments ended without an invocation. -/
inductive Stop where
  /-- Help was asked for. -/
  | help
  /-- The arguments are wrong. -/
  | misuse
  deriving DecidableEq

/-- What follows a flag in the same argument. -/
structure Attached where
  text : Text
  /-- Whether `=` stands between the flag and the text. -/
  afterEquals : Bool
  deriving DecidableEq

/-- What an argument is. -/
inductive ArgumentKind where
  | operand
  /-- The argument `--`. -/
  | divider
  /-- A flag under one of its spellings, with what follows it in the argument. -/
  | flag (f : Flag) (spelling : Text) (attached : Option Attached)
  | unknownFlag
  deriving DecidableEq

/-- The argument that ends the flags. -/
def dividerText : Text := "--"

/-- The character flags start with. -/
def dash : CodePoint := CodePoint.ofChar '-'

/-- The flag of a spelling. -/
def FlagTable.find? (table : FlagTable) (spelling : Text) : Option Flag :=
  (List.find? (·.1 = spelling) table).map (·.2)

/-- Whether a word looks like a negative number: a dash, then digits, or a point with
digits after it.  A line feed may follow. -/
def isNegativeNumber (word : Text) : Bool :=
  match word with
  | [] => false
  | first :: rest =>
    let digits := if rest.getLast? = some (CodePoint.ofChar '\n') then rest.dropLast else rest
    let whole := digits.takeWhile (·.decimal?.isSome)
    match digits.dropWhile (·.decimal?.isSome) with
    | [] => first = dash && !whole.isEmpty
    | point :: fraction =>
      first = dash && point = CodePoint.ofChar '.' && !fraction.isEmpty &&
        fraction.all (·.decimal?.isSome)

/-- The part of a word before its first `=`, and the part after it if there is one. -/
def splitValue (word : Text) : Text × Option Attached :=
  let start := word.takeWhile (· ≠ CodePoint.ofChar '=')
  if start.length < word.length then (start, some ⟨word.drop (start.length + 1), true⟩)
  else (word, none)

/-- The ways to read a word as a shortened long flag, or as a short flag with what
follows it in the word. -/
def readings (table : FlagTable) (word : Text) : List ArgumentKind :=
  match word with
  | _ :: second :: tail =>
    if second = dash then
      let (start, attached) := splitValue word
      (table.filter fun entry => start.isPrefixOf entry.1).map fun entry =>
        .flag entry.2 entry.1 attached
    else
      (table.filter (·.1 = [dash, second])).map fun entry =>
        .flag entry.2 entry.1 (some ⟨tail, false⟩)
  | _ => []

/-- What a word is.  A shortened flag that could be several is a misuse. -/
def classify (table : FlagTable) (word : Text) : Except Stop ArgumentKind :=
  if word.head? ≠ some dash then .ok .operand
  else
    match table.find? word with
    | some f => .ok (.flag f word none)
    | none =>
      if word.length = 1 then .ok .operand
      else
        let (start, attached) := splitValue word
        match attached.bind (fun _ => table.find? start) with
        | some f => .ok (.flag f start attached)
        | none =>
          match readings table word with
          | [reading] => .ok reading
          | _ :: _ => .error .misuse
          | [] =>
            if isNegativeNumber word || word.contains (CodePoint.ofChar ' ') then .ok .operand
            else .ok .unknownFlag

/-- A classified argument. -/
structure Argument where
  text : Text
  kind : ArgumentKind
  deriving DecidableEq

/-- Classifies arguments; after `--` all are operands. -/
def classifyAll (table : FlagTable) : List Text → Except Stop (List Argument)
  | [] => .ok []
  | word :: rest =>
    if word = dividerText then .ok (⟨word, .divider⟩ :: rest.map (⟨·, .operand⟩))
    else do
      let kind ← classify table word
      let others ← classifyAll table rest
      return ⟨word, kind⟩ :: others

/-! ### Commands -/

/-- The commands. -/
inductive Action where
  | check
  | symbols
  | references
  deriving DecidableEq

/-- The word of a command. -/
def Action.word : Action → Text
  | .check => "check"
  | .symbols => "symbols"
  | .references => "references"

/-- The command a word stands for. -/
def Action.ofText? (word : Text) : Option Action :=
  [Action.check, .symbols, .references].find? (·.word = word)

/-- What is read of an invocation so far. -/
structure Reading where
  importPaths : List Text
  workspaceRoots : List Text
  verbose : Bool
  /-- The name asked for, once it is read. -/
  name : Option Text
  /-- The files, once they are read. -/
  files : Option (List Text)
  /-- Whether there was an argument that belongs nowhere. -/
  leftOver : Bool
  deriving DecidableEq

/-- Nothing read. -/
def Reading.start : Reading := ⟨[], [], false, none, none, false⟩

/-- Takes in a flag with its value. -/
def Reading.flag (r : Reading) (f : Flag) (value : Text) : Except Stop Reading :=
  match f with
  | .help => .error .help
  | .importPath => .ok { r with importPaths := r.importPaths ++ [value] }
  | .workspaceRoot => .ok { r with workspaceRoots := r.workspaceRoots ++ [value] }
  | .verbose => .ok { r with verbose := true }

/-- Takes in flags with their values. -/
def Reading.flags (r : Reading) (flags : List (Flag × Text)) : Except Stop Reading :=
  flags.foldlM (fun r entry => r.flag entry.1 entry.2) r

/-- What a flag argument comes to. -/
structure Taken where
  flags : List (Flag × Text)
  /-- Whether the argument ends in letters that are no flags. -/
  leftOver : Bool
  /-- The arguments after it, and after its value. -/
  rest : List Argument
  deriving DecidableEq

/-- A flag without a value in front of others. -/
def Taken.prepend (f : Flag) (t : Taken) : Taken :=
  { t with flags := (f, []) :: t.flags }

/-- A flag whose value, if it takes one, is the next argument. -/
def flagAlone (f : Flag) (rest : List Argument) : Except Stop Taken :=
  if f.takesValue then
    match rest with
    | ⟨value, .operand⟩ :: others => .ok ⟨[(f, value)], false, others⟩
    | _ => .error .misuse
  else .ok ⟨[(f, [])], false, rest⟩

/-- A flag with text attached to it: its value, or more short flags. -/
def flagWith (table : FlagTable) (f : Flag) (short afterEquals : Bool) (attached : Text)
    (rest : List Argument) : Except Stop Taken :=
  if f.takesValue then .ok ⟨[(f, attached)], false, rest⟩
  else
    match attached with
    | [] => .error .misuse
    | c :: cs =>
      if !short || afterEquals || c = dash then .error .misuse
      else
        match table.find? [dash, c], cs with
        | none, _ => .ok ⟨[(f, [])], true, rest⟩
        | some next, [] => (flagAlone next rest).map (Taken.prepend f)
        | some next, d :: ds =>
          if d = CodePoint.ofChar '=' then
            (flagWith table next true true ds rest).map (Taken.prepend f)
          else (flagWith table next true false (d :: ds) rest).map (Taken.prepend f)

/-- A flag argument with the arguments after it. -/
def takeFlag (table : FlagTable) (f : Flag) (spelling : Text) (attached : Option Attached)
    (rest : List Argument) : Except Stop Taken :=
  match attached with
  | none => flagAlone f rest
  | some a => flagWith table f (spelling.length = 2) a.afterEquals a.text rest

/-- The texts of arguments without the first `--` among them. -/
def operandTexts (arguments : List Argument) : List Text :=
  (arguments.map (·.text)).erase dividerText

/-- Whether a command still waits for a name. -/
def Reading.wantsName (r : Reading) (action : Action) : Bool :=
  action = .references && r.name.isNone

/-- The arguments up to the first operand and the `--` after it, and the others. -/
def splitFirst : List Argument → List Argument × List Argument
  | [] => ([], [])
  | a :: rest =>
    if a.kind = .operand then
      (a :: rest.takeWhile (·.kind = .divider), rest.dropWhile (·.kind = .divider))
    else
      let (first, others) := splitFirst rest
      (a :: first, others)

/-- Takes in a run of operands: the name if a command waits for one, then the files. -/
def Reading.operands (r : Reading) (action : Action) (run : List Argument) : Reading :=
  let count := run.countP (·.kind = .operand)
  if r.files.isSome || count = 0 then { r with leftOver := r.leftOver || !run.isEmpty }
  else if r.wantsName action then
    let (first, others) := splitFirst run
    { r with
      name := (operandTexts first).head?
      files := if count = 1 then none else some (operandTexts others) }
  else { r with files := some (operandTexts run) }

/-- Whether an argument is no flag. -/
def Argument.isPlain (a : Argument) : Bool :=
  a.kind = .operand || a.kind = .divider

/-- Reads the arguments of a command; every step takes at least one, so their number
is enough steps. -/
def readArguments (action : Action) : Nat → Reading → List Argument → Except Stop Reading
  | 0, r, _ => .ok r
  | _ + 1, r, [] => .ok r
  | steps + 1, r, a :: rest =>
    match a.kind with
    | .unknownFlag => readArguments action steps { r with leftOver := true } rest
    | .flag f spelling attached => do
      let taken ← takeFlag commandFlags f spelling attached rest
      let r ← r.flags taken.flags
      readArguments action steps { r with leftOver := r.leftOver || taken.leftOver } taken.rest
    | _ =>
      let run := (a :: rest).takeWhile (·.isPlain)
      readArguments action steps (r.operands action run) ((a :: rest).dropWhile (·.isPlain))

/-- A complete invocation. -/
structure Invocation where
  action : Action
  importPaths : List Text
  workspaceRoots : List Text
  verbose : Bool
  /-- The name asked for; empty for commands without one. -/
  name : Text
  files : List Text
  deriving DecidableEq

/-- Reads the arguments after a command. -/
def readCommand (action : Action) (words : List Text) : Except Stop Invocation := do
  let arguments ← classifyAll commandFlags words
  let r ← readArguments action arguments.length Reading.start arguments
  match r.files with
  | none => .error .misuse
  | some files =>
    if r.leftOver then .error .misuse
    else return ⟨action, r.importPaths, r.workspaceRoots, r.verbose, r.name.getD [], files⟩

/-- Reads all arguments.  Without any there is no invocation; flags before the command
other than those for help are a misuse, but the command is read before it is found. -/
def readAll : List Text → Except Stop (Option Invocation)
  | [] => .ok none
  | word :: rest =>
    if word = dividerText then .error .misuse
    else do
      match ← classify outerFlags word with
      | .flag f spelling attached =>
        let taken ← takeFlag outerFlags f spelling attached []
        let _ ← Reading.start.flags taken.flags
        .error .misuse
      | .unknownFlag =>
        let _ ← readAll rest
        .error .misuse
      | _ =>
        match Action.ofText? word with
        | none => .error .misuse
        | some action => some <$> readCommand action rest

end Command
end ProtoAtlas
