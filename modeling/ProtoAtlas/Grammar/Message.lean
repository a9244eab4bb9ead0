/-
# Messages and the bodies inside them

```text
message = "message" identifier "{" { any member | ";" } "}"
group   = [ label ] "group" identifier "=" integer [ brackets ] "{" { any member | ";" } "}"
oneof   = "oneof" identifier "{" { field | group | option | ";" } "}"
extend  = "extend" name "{" { field | group | ";" } "}"
```

Bodies nest.  The rules below take the rule for the bodies inside them as an
argument, and `memberBody` ties the knot.  No more than `maxNesting` bodies are
ever open, so that many rounds of the recursion are enough.
-/

import ProtoAtlas.Grammar.Field

namespace ProtoAtlas

/-- The bodies that hold members. -/
inductive BodyKind where
  | message
  | oneof
  | extend
  deriving DecidableEq

namespace Rule

/-- Reads the body of a block, up to its closing brace. -/
abbrev BodyRule := BodyKind → Block → Rule (List Member)

/-- A message. -/
def message (inner : BodyRule) : Rule Message := do
  let first ← keyword "message"
  let comment ← claimComment first
  let name ← simpleName "message name"
  let brace ← expect .leftBrace "'\x7b' after message name"
  let members ← inner .message ⟨.message, name.text⟩
  return ⟨⟨name, ← close first comment (some brace)⟩, members⟩

/-- A group. -/
def group (inner : BodyRule) : Rule Group := do
  let first ← current
  let label := Label.ofText? first.text
  passLabel label
  let _ ← keyword "group"
  let comment ← claimComment first
  let name ← simpleName "group name"
  let _ ← expect .equals "'=' after group name"
  let number ← integer "group field number"
  let options ← optionalBrackets
  let brace ← expect .leftBrace "'\x7b' after group declaration"
  let members ← inner .message ⟨.group, name.text⟩
  return ⟨⟨name, number, label, options, ← close first comment (some brace)⟩, members⟩

/-- A oneof. -/
def oneof (inner : BodyRule) : Rule Oneof := do
  let first ← keyword "oneof"
  let comment ← claimComment first
  let name ← simpleName "oneof name"
  let brace ← expect .leftBrace "'\x7b' after oneof name"
  let members ← inner .oneof ⟨.oneof, name.text⟩
  return ⟨⟨name, ← close first comment (some brace)⟩, members⟩

/-- An extend block. -/
def extend (inner : BodyRule) : Rule Extend := do
  let first ← keyword "extend"
  let comment ← claimComment first
  let target ← qualifiedName "extended type name"
  let brace ← expect .leftBrace "'\x7b' after extended type"
  let members ← inner .extend ⟨.extend, target.text⟩
  return ⟨⟨target, ← close first comment (some brace)⟩, members⟩

/-! ### Members -/

/-- Whether a keyword starts a block here: a name follows, and after it no `=`. -/
def startsBlock (word : Text) : Rule Bool := do
  let r ← get
  return r.current.isWord word && ((r.peek 1).kind = .identifier || (r.peek 1).kind = .dot) &&
    (r.peek 2).kind ≠ .equals

/-- Whether a group starts at a distance: `group`, a name and `=`. -/
def startsGroupAt (distance : Nat) : Rule Bool := do
  let r ← get
  return (r.peek distance).isWord "group" && (r.peek (distance + 1)).kind = .identifier &&
    (r.peek (distance + 2)).kind = .equals

/-- Whether a group starts here, possibly behind a label. -/
def startsGroup : Rule Bool := do
  if ← startsGroupAt 0 then return true
  else if (Label.ofText? (← current).text).isSome then startsGroupAt 1
  else return false

/-- A field as a member. -/
def fieldMember : Rule (Option Member) := do
  return some (.field (← field))

/-- A group as a member. -/
def groupMember (inner : BodyRule) : Rule (Option Member) := do
  let g ← group inner
  return some (.group g.head g.body)

/-- An option as a member. -/
def optionMember : Rule (Option Member) := do
  return some (.option (← optionStatement))

/-- An extend block as a member. -/
def extendMember (inner : BodyRule) : Rule (Option Member) := do
  let e ← extend inner
  return some (.extend e.head e.body)

/-- A message as a member. -/
def nestedMessage (inner : BodyRule) : Rule (Option Member) := do
  let m ← message inner
  return some (.message m.head m.body)

/-- A oneof as a member. -/
def oneofBlock (inner : BodyRule) : Rule (Option Member) := do
  let o ← oneof inner
  return some (.oneof o.head o.body)

/-- A member of a message or a group that starts with a word or a dot. -/
def namedMember (inner : BodyRule) : Rule (Option Member) := do
  let token ← current
  if token.isWord "option" then optionMember
  else if token.isWord "reserved" then return some (.reserved (← reserved maxFieldNumber))
  else if token.isWord "extensions" then return some (.extensions (← extensions))
  else if ← startsBlock "message" then nestedMessage inner
  else if ← startsBlock "enum" then return some (.enum (← enum))
  else if ← startsBlock "oneof" then oneofBlock inner
  else if ← startsBlock "extend" then extendMember inner
  else if token.isWord "map" && (← peek 1).kind = .leftAngle then return some (.map (← mapField))
  else if ← startsGroup then groupMember inner
  else fieldMember

/-- A member of a message or a group. -/
def messageMember (inner : BodyRule) : Rule (Option Member) := do
  let token ← current
  match token.kind with
  | .semicolon =>
    let _ ← advance
    return none
  | .identifier | .dot => namedMember inner
  | _ => reject (.unexpectedIn token.text .message)

/-- A member of a oneof. -/
def oneofMember (inner : BodyRule) : Rule (Option Member) := do
  if ← accept .semicolon then return none
  else if ← checkWord "option" then optionMember
  else if ← startsGroupAt 0 then groupMember inner
  else fieldMember

/-- A member of an extend block. -/
def extensionMember (inner : BodyRule) : Rule (Option Member) := do
  if ← accept .semicolon then return none
  else if ← startsGroup then groupMember inner
  else fieldMember

/-- A member of a body. -/
def member (inner : BodyRule) : BodyKind → Rule (Option Member)
  | .message => messageMember inner
  | .oneof => oneofMember inner
  | .extend => extensionMember inner

/-- A body, with at most `fuel` bodies inside each other. -/
def memberBodyUpTo : Nat → BodyRule
  | 0 => fun _ block => tooDeep block
  | fuel + 1 => fun kind block => body block (member (memberBodyUpTo fuel) kind)

/-- A body, with all the bodies inside it. -/
def memberBody : BodyRule :=
  memberBodyUpTo maxNesting

end Rule
end ProtoAtlas
