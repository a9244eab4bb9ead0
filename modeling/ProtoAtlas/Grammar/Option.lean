/-
# Names, numbers and options

```text
name     = [ "." ] identifier { "." identifier }
integer  = [ "-" ] number
option   = "option" optionName "=" value ";"
brackets = "[" optionName "=" value { "," optionName "=" value } "]"
optionName = part { "." part }        part = identifier | "(" name ")"
value    = string { string } | aggregate | [ sign ] number | [ sign ] ("inf" | "nan")
         | "true" | "false" | name
```

An aggregate runs from a brace to the one that closes it.  Its value is the text
of its tokens separated by blanks, where adjacent strings are one string.
-/

import ProtoAtlas.Grammar.Reader
import ProtoAtlas.Literal.String

namespace ProtoAtlas
namespace Rule

/-- A dotted name, possibly with a dot in front. -/
def qualifiedName (what : Text) : Rule Name := do
  let start ← current
  let absolute ← accept .dot
  let parts ← separatedBy .dot (expect .identifier what)
  let path := Text.join "." (parts.map (·.text))
  return ⟨if absolute then CodePoint.ofChar '.' :: path else path,
    ⟨start.span.start, (← previous).span.stop⟩⟩

/-- An identifier as a name. -/
def simpleName (what : Text) : Rule Name := do
  let token ← expect .identifier what
  return ⟨token.text, token.span⟩

/-- An integer.  A sign may belong to the number itself and come before it as a
token of its own. -/
def integer (what : Text) : Rule Int := do
  let negative ← accept .minus
  let token ← expect .number what
  let n ← answer ⟨.invalidInteger token.text, token.span⟩ (Literal.integer token.text)
  return if negative then -n else n

/-! ### Options -/

/-- A part of an option name. -/
def optionNamePart : Rule Text := do
  if ← accept .leftParen then
    let extension ← qualifiedName "extension name"
    let _ ← expect .rightParen "')' after extension name"
    return "(" ++ extension.text ++ ")"
  else return (← expect .identifier "option name").text

/-- An option name. -/
def optionName : Rule Name := do
  let start ← current
  let parts ← separatedBy .dot optionNamePart
  return ⟨Text.join "." parts, ⟨start.span.start, (← previous).span.stop⟩⟩

/-- The texts of the tokens of an aggregate, where `pending` are the values of the
strings just before. -/
def replay (pending : List Text) : List Token → List Text
  | [] => []
  | t :: ts =>
    if t.kind = .string then replay (pending ++ [Literal.stringValue t.text]) ts
    else if pending.isEmpty then t.text :: replay [] ts
    else Literal.quote pending.flatten :: t.text :: replay [] ts

/-- An aggregate in braces. -/
def aggregate : Rule Text := do
  let brace ← expect .leftBrace "'\x7b'"
  let rest := (← get).rest
  match Token.blockLength? 0 rest with
  | none =>
    modify (·.advanceBy rest.length)
    throw (.fault ⟨.unterminatedAggregate, brace.span⟩)
  | some n =>
    modify (·.advanceBy n)
    return Text.join " " (brace.text :: replay [] (rest.take n))

/-- Whether a literal is a real number: it has a point or an exponent and is not
hexadecimal. -/
def isRealLiteral (t : Text) : Bool :=
  let digits := Literal.dropSigns t
  let isHex := digits.take 2 = ("0x" : Text) || digits.take 2 = ("0X" : Text)
  !isHex && digits.any fun c =>
    c = CodePoint.ofChar '.' || c = CodePoint.ofChar 'e' || c = CodePoint.ofChar 'E'

/-- The value of a number literal that has just been taken. -/
def numberValue (literal : Text) : Rule OptionValue := do
  let fault : SyntaxFault := ⟨.invalidNumber literal, (← previous).span⟩
  if isRealLiteral literal then return .real (← answer fault (Literal.real literal))
  else return .integer (← answer fault (Literal.integer literal))

/-- The words that are numbers. -/
def numberWord? (negative : Bool) (t : Text) : Option Binary64 :=
  if t = ("inf" : Text) then some (Binary64.infinity negative)
  else if t = ("nan" : Text) then some Binary64.nan
  else none

/-- A number after a sign. -/
def signedValue : Rule OptionValue := do
  let sign ← advance
  if ← check .number then
    numberValue (sign.text ++ (← advance).text)
  else
    let word ← current
    let negative := sign.kind = .minus
    match if word.kind = .identifier then numberWord? negative word.text.lower else none with
    | some x =>
      let _ ← advance
      return .real x
    | none => reject (.expected "number after sign")

/-- The value of an option that is a word or a name. -/
def namedValue (word : Token) : Rule OptionValue := do
  if word.isWord "true" then
    let _ ← advance
    return .flag true
  else if word.isWord "false" then
    let _ ← advance
    return .flag false
  else
    match if word.kind = .identifier then numberWord? false word.text else none with
    | some x =>
      let _ ← advance
      return .real x
    | none => return .text (← qualifiedName "option value").text

/-- The value of an option. -/
def optionValue : Rule OptionValue := do
  let token ← current
  match token.kind with
  | .string =>
    let parts ← many do
      if ← check .string then return some (Literal.stringValue (← advance).text) else return none
    return .text parts.flatten
  | .leftBrace => return .text (← aggregate)
  | .minus => signedValue
  | .plus => signedValue
  | .number => numberValue (← advance).text
  | .identifier => namedValue token
  | .dot => namedValue token
  | _ => reject (.expected "option value")

/-- An option statement. -/
def optionStatement : Rule OptionDecl := do
  let first ← keyword "option"
  let comment ← claimComment first
  let name ← optionName
  let _ ← expect .equals "'=' after option name"
  let value ← optionValue
  let _ ← expect .semicolon "';' after option"
  return ⟨name, value, ← close first comment none⟩

/-- An option in brackets. -/
def bracketOption : Rule OptionDecl := do
  let start ← current
  let name ← optionName
  let _ ← expect .equals "'=' after option name"
  let value ← optionValue
  return ⟨name, value, ⟨⟨start.span.start, (← previous).span.stop⟩, none, none⟩⟩

/-- Options in brackets. -/
def brackets : Rule (List OptionDecl) := do
  let _ ← expect .leftBracket "'[' for field options"
  let options ← separatedBy .comma bracketOption
  let _ ← expect .rightBracket "',' or ']' in field options"
  return options

/-- Options in brackets, if there is a bracket. -/
def optionalBrackets : Rule (List OptionDecl) := do
  if ← check .leftBracket then brackets else return []

end Rule
end ProtoAtlas
