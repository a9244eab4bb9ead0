/-
# Fields, ranges, enums and services

```text
field      = [ label ] name identifier "=" integer [ brackets ] ";"
mapField   = "map" "<" identifier "," name ">" identifier "=" integer [ brackets ] ";"
range      = integer [ "to" ( integer | "max" ) ]
reserved   = "reserved" reservation { "," reservation } ";"
             reservation = string | identifier | range
extensions = "extensions" range { "," range } [ brackets ] ";"
enum       = "enum" identifier "{" { value | option | reserved | ";" } "}"
             value = identifier "=" integer [ brackets ] ";"
service    = "service" identifier "{" { rpc | option | ";" } "}"
rpc        = "rpc" identifier "(" [ "stream" ] name ")" "returns" "(" [ "stream" ] name ")"
             ( "{" { option | ";" } "}" | ";" )
```

A keyword is one only where the tokens behind it ask for it, so that every word
can also be a name.
-/

import ProtoAtlas.Grammar.Option

namespace ProtoAtlas
namespace Rule

/-- Takes the token of a label that was found there. -/
def passLabel (label : Option Label) : Rule Unit := do
  if label.isSome then
    let _ ← advance

/-- A field.  The first word is a label unless two tokens later the `=` stands:
then it is the type. -/
def field : Rule Field := do
  let first ← current
  let label : Option Label :=
    if (← peek 2).kind = .equals then none else Label.ofText? first.text
  passLabel label
  let type ← qualifiedName "field type"
  let comment ← claimComment first
  let name ← simpleName "field name"
  let _ ← expect .equals "'=' after field name"
  let number ← integer "field number"
  let options ← optionalBrackets
  let _ ← expect .semicolon "';' after field declaration"
  return ⟨name, type, number, label, options, ← close first comment none⟩

/-- A map field. -/
def mapField : Rule MapField := do
  let first ← keyword "map"
  let comment ← claimComment first
  let _ ← expect .leftAngle "'<' after map"
  let key ← simpleName "map key type"
  let _ ← expect .comma "',' in map type"
  let value ← qualifiedName "map value type"
  let _ ← expect .rightAngle "'>' after map type"
  let name ← simpleName "field name"
  let _ ← expect .equals "'=' after field name"
  let number ← integer "field number"
  let options ← optionalBrackets
  let _ ← expect .semicolon "';' after map field"
  return ⟨name, key, value, number, options, ← close first comment none⟩

/-! ### Ranges -/

/-- A range of numbers; `max` stands for a given number. -/
def numberRange (max : Int) : Rule NumberRange := do
  let first ← integer "range start"
  if ← checkWord "to" then
    let _ ← advance
    if ← checkWord "max" then
      let _ ← advance
      return ⟨first, max, true⟩
    else return ⟨first, ← integer "range end", false⟩
  else return ⟨first, first, false⟩

/-- A reserved name or a reserved range. -/
def reservation (max : Int) : Rule (Text ⊕ NumberRange) := do
  let token ← current
  match token.kind with
  | .string =>
    let _ ← advance
    return .inl (Literal.stringValue token.text)
  | .identifier =>
    let _ ← advance
    return .inl token.text
  | .number => return .inr (← numberRange max)
  | .minus => return .inr (← numberRange max)
  | _ => reject (.expected "reserved range or name")

/-- A reserved statement. -/
def reserved (max : Int) : Rule Reserved := do
  let first ← keyword "reserved"
  let comment ← claimComment first
  let parts ← separatedBy .comma (reservation max)
  let _ ← expect .semicolon "';' after reserved"
  return ⟨parts.filterMap Sum.getRight?, parts.filterMap Sum.getLeft?, ← close first comment none⟩

/-- An extensions statement. -/
def extensions : Rule Extensions := do
  let first ← keyword "extensions"
  let comment ← claimComment first
  let ranges ← separatedBy .comma (numberRange maxFieldNumber)
  let options ← optionalBrackets
  let _ ← expect .semicolon "';' after extensions"
  return ⟨ranges, options, ← close first comment none⟩

/-! ### Enums -/

/-- A value of an enum. -/
def enumValue : Rule EnumValue := do
  let first ← expect .identifier "enum value name"
  let comment ← claimComment first
  let _ ← expect .equals "'=' after enum value name"
  let number ← integer "enum value number"
  let options ← optionalBrackets
  let _ ← expect .semicolon "';' after enum value"
  return ⟨⟨first.text, first.span⟩, number, options, ← close first comment none⟩

/-- A member of an enum.  Before `=` the words `option` and `reserved` are names. -/
def enumMember : Rule (Option EnumMember) := do
  if ← accept .semicolon then return none
  let token ← current
  if (← peek 1).kind ≠ .equals && token.isWord "option" then
    return some (.option (← optionStatement))
  else if (← peek 1).kind ≠ .equals && token.isWord "reserved" then
    return some (.reserved (← reserved maxEnumNumber))
  else return some (.value (← enumValue))

/-- An enum. -/
def enum : Rule Enum := do
  let first ← keyword "enum"
  let comment ← claimComment first
  let name ← simpleName "enum name"
  let brace ← expect .leftBrace "'\x7b' after enum name"
  let members ← body ⟨.enum, name.text⟩ enumMember
  return ⟨name, members, ← close first comment (some brace)⟩

/-! ### Services -/

/-- Whether a stream is meant; before anything but a name `stream` is a name. -/
def stream : Rule Bool := do
  let token ← current
  let next ← peek 1
  if token.isWord "stream" && (next.kind = .identifier || next.kind = .dot) then
    let _ ← advance
    return true
  else return false

/-- A member of a procedure's body. -/
def rpcMember : Rule (Option OptionDecl) := do
  if ← accept .semicolon then return none
  let token ← current
  if token.isWord "option" then return some (← optionStatement)
  else reject (.unexpectedIn token.text .rpc)

/-- A procedure. -/
def rpc : Rule Rpc := do
  let first ← keyword "rpc"
  let comment ← claimComment first
  let name ← simpleName "rpc name"
  let _ ← expect .leftParen "'(' after rpc name"
  let requestStreams ← stream
  let request ← qualifiedName "request type"
  let _ ← expect .rightParen "')' after request type"
  let _ ← expectWord "returns" "'returns' after request type"
  let _ ← expect .leftParen "'(' after 'returns'"
  let responseStreams ← stream
  let response ← qualifiedName "response type"
  let _ ← expect .rightParen "')' after response type"
  if ← check .leftBrace then
    let brace ← advance
    let options ← body ⟨.rpc, name.text⟩ rpcMember
    return ⟨name, request, response, requestStreams, responseStreams, options,
      ← close first comment (some brace)⟩
  else
    let _ ← expect .semicolon "';' or '\x7b' after rpc definition"
    return ⟨name, request, response, requestStreams, responseStreams, [],
      ← close first comment none⟩

/-- A member of a service. -/
def serviceMember : Rule (Option ServiceMember) := do
  if ← accept .semicolon then return none
  let token ← current
  if token.isWord "option" then return some (.option (← optionStatement))
  else if token.isWord "rpc" then return some (.rpc (← rpc))
  else reject (.unexpectedIn token.text .service)

/-- A service. -/
def service : Rule Service := do
  let first ← keyword "service"
  let comment ← claimComment first
  let name ← simpleName "service name"
  let brace ← expect .leftBrace "'\x7b' after service name"
  let members ← body ⟨.service, name.text⟩ serviceMember
  return ⟨name, members, ← close first comment (some brace)⟩

end Rule
end ProtoAtlas
