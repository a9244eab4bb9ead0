/-
# Syntax faults

A fault is a cause and the place of the token, or of the opening brace, that
shows it.  `SyntaxCause.message` is the one place where faults are put into
words.
-/

import ProtoAtlas.Source.Position

namespace ProtoAtlas

/-- The constructs that have a body in braces. -/
inductive BlockKind where
  | message
  | group
  | oneof
  | enum
  | service
  | rpc
  | extend
  deriving DecidableEq

/-- The word for a construct with a body. -/
def BlockKind.word : BlockKind → Text
  | .message => "message"
  | .group => "group"
  | .oneof => "oneof"
  | .enum => "enum"
  | .service => "service"
  | .rpc => "rpc"
  | .extend => "extend"

/-- A construct with a body, and its name. -/
structure Block where
  kind : BlockKind
  name : Text
  deriving DecidableEq

/-- A block in a message: its word and its quoted name. -/
def Block.text (b : Block) : Text :=
  b.kind.word ++ " '" ++ b.name ++ "'"

/-- The declarations a file may have once. -/
inductive SingleDeclaration where
  | syntaxLevel
  | edition
  | package
  deriving DecidableEq

/-- Why a text is not a schema. -/
inductive SyntaxCause where
  /-- Something else was expected here. -/
  | expected (what : Text)
  /-- A token that starts nothing here. -/
  | unexpected (token : Text)
  /-- A token that starts no member of a body. -/
  | unexpectedIn (token : Text) (kind : BlockKind)
  /-- A second declaration where one is allowed. -/
  | duplicate (what : SingleDeclaration)
  /-- An option value that starts like a number and is none. -/
  | invalidNumber (literal : Text)
  /-- A number that is no integer. -/
  | invalidInteger (literal : Text)
  /-- An option value in braces without its closing brace. -/
  | unterminatedAggregate
  /-- A body below the deepest level that is read. -/
  | tooDeep (block : Block)
  /-- The file ends inside a body. -/
  | unclosed (block : Block)
  deriving DecidableEq

namespace SyntaxCause

/-- A cause in words. -/
def message : SyntaxCause → Text
  | .expected what => "Expected " ++ what
  | .unexpected token => "Unexpected token '" ++ token ++ "'"
  | .unexpectedIn token kind => "Unexpected token '" ++ token ++ "' in " ++ kind.word ++ " body"
  | .duplicate .syntaxLevel => "Duplicate syntax declaration"
  | .duplicate .edition => "Duplicate edition declaration"
  | .duplicate .package => "Duplicate package declaration"
  | .invalidNumber literal => "Invalid number '" ++ literal ++ "'"
  | .invalidInteger literal => "Invalid integer '" ++ literal ++ "'"
  | .unterminatedAggregate => "Unterminated aggregate value"
  | .tooDeep block => block.text ++ " is nested too deeply"
  | .unclosed block => "Expected '\x7d' to close " ++ block.text

end SyntaxCause

/-- A cause and its place. -/
structure SyntaxFault where
  cause : SyntaxCause
  span : Span
  deriving DecidableEq

namespace SyntaxFault

/-- A fault as a line of a report, with its one-based place in front. -/
def text (f : SyntaxFault) : Text :=
  Position.text f.span.start ++ ": " ++ f.cause.message

/-- A fault as a sentence, with its one-based place in words. -/
def sentence (f : SyntaxFault) : Text :=
  "Line " ++ Text.ofNat (f.span.start.line + 1) ++ ", Column " ++
    Text.ofNat (f.span.start.character + 1) ++ ": " ++ f.cause.message

end SyntaxFault

end ProtoAtlas
