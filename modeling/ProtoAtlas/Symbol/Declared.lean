/-
# The symbols of a file

Every message, enum, enum value, field, map field, oneof, service and procedure
of a file has one symbol.  A group has two: the message, and after everything in
it the field, whose name is in lower case.

Symbols come kind by kind: messages, enums, services and extend blocks of a file,
and in a body fields, map fields, groups, oneofs, messages, enums and extend
blocks.  The members of a oneof belong to the message around it, and those of an
extend block to the scope the block stands in.
-/

import ProtoAtlas.Schema.Walk
import ProtoAtlas.Symbol.Basic

namespace ProtoAtlas
namespace Symbol

/-- The symbol of a name declared in a scope. -/
def declare (uri : Text) (kind : SymbolKind) (scope name : Text) (span : Span) (info : NodeInfo) :
    Symbol where
  name := name
  fullName := qualify scope name
  kind := kind
  location := ⟨uri, span⟩
  container := if scope.isEmpty then none else some scope
  doc := info.comments

/-- The symbol of an enum and those of its values. -/
def ofEnum (uri scope : Text) (e : Enum) : List Symbol :=
  declare uri .enum scope e.name.text e.name.span e.info ::
    e.values.map fun v =>
      declare uri .enumValue (qualify scope e.name.text) v.name.text v.name.span v.info

/-- The symbol of a service and those of its procedures. -/
def ofService (uri scope : Text) (s : Service) : List Symbol :=
  declare uri .service scope s.name.text s.name.span s.info ::
    s.rpcs.map fun r => declare uri .rpc (qualify scope s.name.text) r.name.text r.name.span r.info

/-- The symbols a member has before those of its body. -/
def entering (uri scope : Text) : Member → List Symbol
  | .field f => [declare uri .field scope f.name.text f.name.span f.info]
  | .map m => [declare uri .field scope m.name.text m.name.span m.info]
  | .group h _ => [declare uri .message scope h.name.text h.name.span h.info]
  | .oneof h _ => [declare uri .oneof scope h.name.text h.name.span h.info]
  | .message h _ => [declare uri .message scope h.name.text h.name.span h.info]
  | .enum e => ofEnum uri scope e
  | _ => []

/-- The symbols a member has after those of its body. -/
def leaving (uri scope : Text) : Member → List Symbol
  | .group h _ => [declare uri .field scope h.fieldName h.name.span h.info]
  | _ => []

/-- The walk that collects symbols. -/
def walk (uri : Text) : Walk Symbol where
  order := [.field, .map, .group, .oneof, .message, .enum, .extend]
  enter := entering uri
  leave := leaving uri

end Symbol

/-- The symbols of a file. -/
def SchemaFile.symbols (uri : Text) (f : SchemaFile) : List Symbol :=
  (Symbol.walk uri).file [.message, .enum] f ++
    f.services.flatMap (Symbol.ofService uri f.packageName) ++
    (Symbol.walk uri).file [.extend] f

end ProtoAtlas
