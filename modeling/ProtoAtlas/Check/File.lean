/-
# Checking a file

A check looks at a loaded file in the session it is loaded in: its syntax faults,
its level, its imports, its bodies, and last its type references.  A file is valid
if nothing that was found is an error.

If something found in the bodies or before has no text, the check ends there.
-/

import ProtoAtlas.Check.Body
import ProtoAtlas.Workspace.Types

namespace ProtoAtlas
namespace Check

/-- What is wrong with the declaration of the level. -/
def level (f : SchemaFile) : List Finding :=
  match f.syntaxDecl?, f.editionDecl? with
  | none, none => [Problem.levelMissing.at Span.empty]
  | none, some _ => []
  | some d, _ =>
    findIf (d.version ≠ "proto2" && d.version ≠ "proto3") (.levelUnknown d.version) d.info.span

/-- What is wrong with an import, given the imports before it. -/
def importing (uri : Text) (earlier : List ImportDecl) (d : ImportDecl) : Query (List Finding) := do
  let path := d.path.text
  let target ← Session.resolveImport uri path
  return findIf (earlier.any (·.path.text = path)) (.importRepeated path) d.path.span ++
    findIf target.isNone (.importMissing path) d.path.span

/-- What is wrong with the imports of a file. -/
def imports (uri : Text) (f : SchemaFile) : Query (List Finding) := do
  let found ← f.imports.zipIdx.mapM fun (d, i) => importing uri (f.imports.take i) d
  return found.flatten

/-! ### References -/

/-- What is wrong with a type: it is unknown, or the symbol that it means is wrong. -/
def resolved (uri scope : Text) (type : Name) (judge : Symbol → List Finding) :
    Query (List Finding) := do
  match ← Session.resolveType type.text uri (some scope) with
  | none => return [(Problem.typeUnknown type.text).at type.span]
  | some s => return judge s

/-- What is wrong with the type of a field or the value type of a map.  A scalar is fine. -/
def fieldType (uri scope : Text) (type : Name) : Query (List Finding) := do
  if scalarTypes.contains type.text then return []
  else resolved uri scope type fun _ => []

/-- What is wrong with the target of an extend block.  A scalar is no known type. -/
def extendTarget (uri scope : Text) (target : Name) : Query (List Finding) :=
  resolved uri scope target fun s =>
    findIf (s.kind ≠ .message) (.extendsNonMessage target.text) target.span

/-- What is wrong with the request or the response of a procedure. -/
def rpcType (uri scope name : Text) (type : Name) : Query (List Finding) := do
  if scalarTypes.contains type.text then
    return [(Problem.rpcScalar name type.text).at type.span]
  else resolved uri scope type fun s =>
    findIf (s.kind ≠ .message) (.rpcEnum name type.text) type.span

/-- What is wrong with the two types of a procedure. -/
def rpc (uri scope : Text) (r : Rpc) : Query (List Finding) := do
  let request ← rpcType uri scope r.name.text r.request
  let response ← rpcType uri scope r.name.text r.response
  return request ++ response

/-- Runs the checks of the kinds of an order, kind by kind. -/
def inTurn (order : List MemberKind) (checks : List (MemberKind × Query (List Finding))) :
    Query (List Finding) := do
  let found ← (order.flatMap fun kind => checks.filter (·.1 = kind)).mapM (·.2)
  return found.flatten

/-- The order in which the members of a message or a group are looked at. -/
def bodyOrder : List MemberKind := [.field, .map, .oneof, .group, .message, .extend]

mutual

/-- What is wrong with the references of a member in a scope.  The body of a message or a
group is in the scope of its full name; that of a oneof or an extend block is in the scope
around it, and has only fields and groups to look at. -/
def references (uri scope : Text) : Member → Query (List Finding)
  | .field f => fieldType uri scope f.type
  | .map m => fieldType uri scope m.value
  | .group head body => inTurn bodyOrder (referencesIn uri (qualify scope head.name.text) body)
  | .message head body => inTurn bodyOrder (referencesIn uri (qualify scope head.name.text) body)
  | .oneof _ body => inTurn [.field, .group] (referencesIn uri scope body)
  | .extend head body => do
    let target ← extendTarget uri scope head.target
    let inner ← inTurn [.field, .group] (referencesIn uri scope body)
    return target ++ inner
  | .enum _ => return []
  | .option _ => return []
  | .reserved _ => return []
  | .extensions _ => return []

/-- The checks of the references of the members of a body, each with its kind. -/
def referencesIn (uri scope : Text) : List Member → List (MemberKind × Query (List Finding))
  | [] => []
  | m :: rest => (m.kind, references uri scope m) :: referencesIn uri scope rest

end

/-- What is wrong with the references of a file: those in messages, in extend blocks
and in services. -/
def typeReferences (uri : Text) (f : SchemaFile) : Query (List Finding) := do
  let package := f.packageName
  let inside ← inTurn [.message, .extend] (referencesIn uri package f.members)
  let served ← (f.services.flatMap (·.rpcs)).mapM (rpc uri package)
  return inside ++ served.flatten

/-- What is wrong with a file, its references apart. -/
def declarations (uri : Text) (f : SchemaFile) : Query (List Finding) := do
  let faults := f.faults.map fun fault => (Problem.malformed fault.cause).at fault.span
  let imports ← imports uri f
  return faults ++ level f ++ imports ++ bodies f

/-- Puts findings into words; none if one of them has no text. -/
def issues? (uri : Text) (found : List Finding) : Option (List Issue) :=
  found.mapM (Finding.issue? uri)

/-- Checks the file with a URI.  There is no answer if a problem has no text. -/
def file (uri : Text) : Query (Option (List Issue)) := do
  match (← Session.current).file? uri with
  | none => return issues? uri [⟨.notLoaded uri, none⟩]
  | some r =>
    match issues? uri (← declarations uri r.tree) with
    | none => return none
    | some first =>
      let references ← typeReferences uri r.tree
      return (issues? uri references).map (first ++ ·)

end Check

/-- The issues that are errors. -/
def Issue.errors (issues : List Issue) : List Issue :=
  issues.filter (·.severity = .error)

/-- The issues that are warnings. -/
def Issue.warnings (issues : List Issue) : List Issue :=
  issues.filter (·.severity = .warning)

end ProtoAtlas
