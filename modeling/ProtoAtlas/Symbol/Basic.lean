/-
# Symbols

A symbol is a named declaration of a loaded file, with its full name and the
place of its name in the source.  Messages and enums are the types; groups count
as messages, and map fields as fields.
-/

import ProtoAtlas.Path.Uri
import ProtoAtlas.Source.Position

namespace ProtoAtlas

/-- A place in a file. -/
structure Location where
  uri : Text
  span : Span
  deriving DecidableEq

/-- The path of a location's file, and the place where the location starts. -/
def Location.text (l : Location) : Text :=
  Uri.toPath l.uri ++ ":" ++ Position.text l.span.start

/-- The kinds of symbols. -/
inductive SymbolKind where
  | message
  | enum
  | enumValue
  | field
  | oneof
  | service
  | rpc
  deriving DecidableEq

namespace SymbolKind

/-- The word for a kind. -/
def word : SymbolKind → Text
  | .message => "message"
  | .enum => "enum"
  | .enumValue => "enum_value"
  | .field => "field"
  | .oneof => "oneof"
  | .service => "service"
  | .rpc => "rpc"

/-- Whether symbols of a kind can be the type of a field. -/
def isType : SymbolKind → Bool
  | .message => true
  | .enum => true
  | _ => false

end SymbolKind

/-- A named declaration. -/
structure Symbol where
  name : Text
  fullName : Text
  kind : SymbolKind
  /-- Where the name stands. -/
  location : Location
  /-- The full name of what the symbol is declared in. -/
  container : Option Text
  /-- The comments before the declaration. -/
  doc : Option Text
  deriving DecidableEq

namespace Symbol

/-- The file a symbol is declared in. -/
def uri (s : Symbol) : Text :=
  s.location.uri

/-- Whether a symbol is a message or an enum. -/
def isType (s : Symbol) : Bool :=
  s.kind.isType

/-- A short text for a symbol. -/
def describe (s : Symbol) : Text :=
  "Symbol(" ++ s.kind.word ++ " " ++ s.fullName ++ ")"

end Symbol
end ProtoAtlas
