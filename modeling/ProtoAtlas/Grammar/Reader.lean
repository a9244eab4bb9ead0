/-
# Reading tokens

A reader stands between the tokens it has taken and the rest.  A grammar rule is
a step of the reader that may stop with a fault; the tokens taken and the faults
recorded before it stay, and only the loops over statements catch one.  A rule
may also stop because a number literal has no answer, and that nothing catches.

Besides its place a reader keeps the latest leading comment that no declaration
has claimed.  Taking a token with a leading comment replaces it; a declaration
claims the comment in front of its first token, or else the kept one.

A reader also counts the bodies it is in.  A body is entered only while fewer
than `maxNesting` are open, and it is left again however reading it ends.
-/

import ProtoAtlas.Literal.Number
import ProtoAtlas.Schema.Basic
import ProtoAtlas.Source.Token

namespace ProtoAtlas

/-- A place in a stream of tokens, with what has been noted so far. -/
structure Reader where
  /-- The tokens taken, the latest first. -/
  taken : List Token
  rest : List Token
  /-- The token that stands at the end. -/
  finish : Token
  /-- The latest leading comment that no declaration has claimed. -/
  dangling : Option Text
  /-- The faults recorded, the latest first. -/
  faults : List SyntaxFault
  /-- How many bodies are open. -/
  depth : Nat

namespace Reader

/-- The reader in front of a stream. -/
def ofStream (s : TokenStream) : Reader :=
  ⟨[], s.tokens, s.finish, none, [], 0⟩

/-- How many tokens have been taken. -/
def position (r : Reader) : Nat :=
  r.taken.length

/-- The token at a distance from the current one. -/
def peek (r : Reader) (distance : Nat) : Token :=
  r.rest.getD distance r.finish

/-- The next token. -/
def current (r : Reader) : Token :=
  r.peek 0

/-- The latest token taken, or the first one if none was taken. -/
def previous (r : Reader) : Token :=
  r.taken.headD r.current

/-- Whether all tokens are taken. -/
def atEnd (r : Reader) : Bool :=
  r.rest.isEmpty

/-- Takes one token; at the end nothing changes. -/
def advance (r : Reader) : Reader :=
  match r.rest with
  | [] => r
  | t :: ts =>
    { r with
      taken := t :: r.taken
      rest := ts
      dangling := match t.leading with
        | some (c :: cs) => some (c :: cs)
        | _ => r.dangling }

/-- Takes a number of tokens. -/
def advanceBy : Nat → Reader → Reader
  | 0, r => r
  | n + 1, r => advanceBy n r.advance

/-- Adds a fault. -/
def record (r : Reader) (f : SyntaxFault) : Reader :=
  { r with faults := f :: r.faults }

/-- Enters a body. -/
def enter (r : Reader) : Reader :=
  { r with depth := r.depth + 1 }

/-- Leaves a body. -/
def leave (r : Reader) : Reader :=
  { r with depth := r.depth - 1 }

end Reader

/-- Why a rule ends without a result. -/
inductive Stop where
  /-- The text is no schema here. -/
  | fault (f : SyntaxFault)
  /-- A number literal has no answer. -/
  | literal (e : Literal.NumberError)

/-- A grammar rule. -/
abbrev Rule := EStateM Stop Reader

namespace Rule

/-- The next token. -/
def current : Rule Token := do
  return (← get).current

/-- The token at a distance from the current one. -/
def peek (distance : Nat) : Rule Token := do
  return (← get).peek distance

/-- The latest token taken. -/
def previous : Rule Token := do
  return (← get).previous

/-- Whether the next token has a kind. -/
def check (kind : TokenKind) : Rule Bool := do
  return (← current).kind = kind

/-- Whether the next token is a word. -/
def checkWord (word : Text) : Rule Bool := do
  return (← current).isWord word

/-- Takes the next token. -/
def advance : Rule Token :=
  modifyGet fun r => (r.current, r.advance)

/-- Takes the next token if it has a kind. -/
def accept (kind : TokenKind) : Rule Bool := do
  if ← check kind then
    let _ ← advance
    return true
  else return false

/-- A fault at the next token. -/
def faultHere (cause : SyntaxCause) : Rule SyntaxFault := do
  return ⟨cause, (← current).span⟩

/-- Fails at the next token. -/
def reject {α : Type} (cause : SyntaxCause) : Rule α := do
  throw (.fault (← faultHere cause))

/-- Takes a token of a kind. -/
def expect (kind : TokenKind) (what : Text) : Rule Token := do
  if ← check kind then advance else reject (.expected what)

/-- Takes a word. -/
def expectWord (word : Text) (what : Text) : Rule Token := do
  if ← checkWord word then advance else reject (.expected what)

/-- Takes the word that names a declaration. -/
def keyword (word : Text) : Rule Token :=
  expectWord word ("'" ++ word ++ "'")

/-- Adds a fault and goes on. -/
def record (f : SyntaxFault) : Rule Unit :=
  modify (·.record f)

/-- Runs a rule and handles its fault; a literal without an answer is not handled. -/
def recovering {α : Type} (rule : Rule α) (handle : SyntaxFault → Rule α) : Rule α :=
  tryCatch rule fun
    | .fault f => handle f
    | .literal e => throw (.literal e)

/-- The answer of a number literal.  A text that is no literal is a fault. -/
def answer {α : Type} (fault : SyntaxFault) : Except Literal.NumberError (Option α) → Rule α
  | .ok (some a) => return a
  | .ok none => throw (.fault fault)
  | .error e => throw (.literal e)

/-- A comment that says something. -/
def spoken : Option Text → Option Text
  | some (c :: cs) => some (c :: cs)
  | _ => none

/-- The comment of a declaration with a given first token. -/
def claimComment (first : Token) : Rule (Option Text) :=
  modifyGet fun r => ((spoken first.leading).or r.dangling, { r with dangling := none })

/-- Place and comments of the declaration that ends here.  The comment after the
opening brace goes before the one after the last token, and a declaration
without a comment in front takes the one behind. -/
def close (first : Token) (comment : Option Text) (brace : Option Token) : Rule NodeInfo := do
  let last ← previous
  let trailing := (spoken (brace.bind (·.trailing))).or last.trailing
  return ⟨⟨first.span.start, last.span.stop⟩, comment.or trailing, trailing⟩

/-- Repeats a rule at most `fuel` times until it has no more to give. -/
def repeatUpTo {α : Type} (step : Rule (Option α)) : Nat → Rule (List α)
  | 0 => return []
  | fuel + 1 => do
    match ← step with
    | none => return []
    | some a => return a :: (← repeatUpTo step fuel)

/-- Repeats a rule until it has no more to give.  A rule that gives something
takes a token, so the tokens left bound the repetitions. -/
def many {α : Type} (step : Rule (Option α)) : Rule (List α) := do
  repeatUpTo step ((← get).rest.length + 1)

/-- One or more results, each after the first behind a separator. -/
def separatedBy {α : Type} (separator : TokenKind) (element : Rule α) : Rule (List α) := do
  let first ← element
  let more ← many do
    if ← accept separator then return some (← element) else return none
  return first :: more

end Rule

/-! ### Recovery

How many tokens to pass over is a matter of the tokens alone. -/

namespace Token

/-- The tokens through the next `;` or closing brace. -/
def statementLength : List Token → Nat
  | [] => 0
  | t :: ts =>
    if t.kind = .semicolon ∨ t.kind = .rightBrace then 1 else 1 + statementLength ts

/-- The rest of a member inside a body, with `depth` braces open in it: the
tokens through a `;` outside braces or through the brace that closes the last
open one, but not the closing brace of the body itself. -/
def memberLength (depth : Nat) : List Token → Nat
  | [] => 0
  | t :: ts =>
    if t.kind = .rightBrace then
      match depth with
      | 0 => 0
      | 1 => 1
      | d + 2 => 1 + memberLength (d + 1) ts
    else if t.kind = .leftBrace then 1 + memberLength (depth + 1) ts
    else if t.kind = .semicolon ∧ depth = 0 then 1
    else 1 + memberLength depth ts

/-- The tokens through the brace that closes the last of `depth + 1` open ones, if
there is one. -/
def blockLength? (depth : Nat) : List Token → Option Nat
  | [] => none
  | t :: ts =>
    if t.kind = .rightBrace then
      match depth with
      | 0 => some 1
      | d + 1 => (blockLength? d ts).map (1 + ·)
    else if t.kind = .leftBrace then (blockLength? (depth + 1) ts).map (1 + ·)
    else (blockLength? depth ts).map (1 + ·)

end Token

namespace Reader

/-- Passes over the rest of a statement at the top of a file. -/
def skipStatement (r : Reader) : Reader :=
  r.advanceBy (Token.statementLength r.rest)

/-- Passes over the rest of a member. -/
def skipMember (r : Reader) : Reader :=
  r.advanceBy (Token.memberLength 0 r.rest)

/-- Passes over the rest of a body with its closing brace. -/
def skipBlock (r : Reader) : Reader :=
  r.advanceBy ((Token.blockLength? 0 r.rest).getD r.rest.length)

end Reader

/-! ### Bodies -/

/-- How many bodies may be open at once. -/
def maxNesting : Nat := 100

namespace Rule

/-- One step through a body.  A closing brace and the end of the file end it; a
member that fails is recorded and passed over. -/
def memberStep {α : Type} (block : Block) (member : Rule (Option α)) :
    Rule (Option (Option α)) := do
  if ← accept .rightBrace then return none
  if (← get).atEnd then
    record (← faultHere (.unclosed block))
    return none
  recovering (some <$> member) fun fault => do
    record fault
    modify Reader.skipMember
    return some none

/-- The members of a body up to its closing brace. -/
def members {α : Type} (block : Block) (member : Rule (Option α)) : Rule (List α) := do
  return (← many (memberStep block member)).filterMap id

/-- A body that is too deep is recorded and passed over. -/
def tooDeep {α : Type} (block : Block) : Rule (List α) := do
  record (← faultHere (.tooDeep block))
  modify Reader.skipBlock
  return []

/-- Runs a rule inside a body, which is left whether the rule gives a result or stops. -/
def inside {α : Type} (rule : Rule α) : Rule α := do
  modify Reader.enter
  try rule
  finally modify Reader.leave

/-- A body and its members, unless too many bodies are open. -/
def body {α : Type} (block : Block) (member : Rule (Option α)) : Rule (List α) := do
  if maxNesting ≤ (← get).depth then tooDeep block
  else inside (members block member)

end Rule

end ProtoAtlas
