/-
# Type references

A file refers to a type in four places: as the type of a field, as the value type
of a map, as the request or the response of a procedure, and as the target of an
extend block.  A reference is resolved from a scope: the full name of the message
around it, or the package.

References come in the order messages, services and extend blocks of a file, and
in a body fields, maps, oneofs, groups, messages and extend blocks.
-/

import ProtoAtlas.Schema.Walk

namespace ProtoAtlas

/-- What a type is referred to for. -/
inductive TypeRole where
  /-- The type of a field or the value type of a map. -/
  | field
  /-- The target of an extend block. -/
  | extendTarget
  /-- The request or the response of the procedure with a name. -/
  | rpc (name : Text)
  deriving DecidableEq

/-- A type as it is written, and the scope it is resolved from. -/
structure TypeSite where
  type : Name
  scope : Text
  role : TypeRole
  deriving DecidableEq

namespace TypeSite

/-- The reference a member has itself. -/
def entering (scope : Text) : Member → List TypeSite
  | .field f => [⟨f.type, scope, .field⟩]
  | .map m => [⟨m.value, scope, .field⟩]
  | .extend h _ => [⟨h.target, scope, .extendTarget⟩]
  | _ => []

/-- The walk that collects references. -/
def walk : Walk TypeSite where
  order := [.field, .map, .oneof, .group, .message, .extend]
  enter := entering
  leave := fun _ _ => []

/-- The two references of a procedure. -/
def ofRpc (scope : Text) (r : Rpc) : List TypeSite :=
  [⟨r.request, scope, .rpc r.name.text⟩, ⟨r.response, scope, .rpc r.name.text⟩]

end TypeSite

namespace SchemaFile

/-- The references in the messages of a file. -/
def messageSites (f : SchemaFile) : List TypeSite :=
  TypeSite.walk.file [.message] f

/-- The references in the services of a file. -/
def serviceSites (f : SchemaFile) : List TypeSite :=
  f.services.flatMap fun s => s.rpcs.flatMap (TypeSite.ofRpc f.packageName)

/-- The references in the extend blocks of a file. -/
def extendSites (f : SchemaFile) : List TypeSite :=
  TypeSite.walk.file [.extend] f

/-- All references of a file. -/
def typeSites (f : SchemaFile) : List TypeSite :=
  f.messageSites ++ f.serviceSites ++ f.extendSites

end SchemaFile
end ProtoAtlas
