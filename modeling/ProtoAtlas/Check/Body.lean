/-
# Checking bodies

What can be wrong inside a message, a group or an enum without looking at other
files.  The members of a message body are its fields, maps and groups and the
fields and groups of its oneofs; a group counts under its name in lower case.
Numbers and names of members are unique, in range, and neither reserved nor left
to extensions.

Bodies are checked from the messages and enums of a file down through messages,
groups, groups of oneofs and enums.
-/

import ProtoAtlas.Check.Problem
import ProtoAtlas.Schema.Walk

namespace ProtoAtlas
namespace Check

/-- A name and a number of a message body, and where the name stands. -/
structure Slot where
  name : Text
  number : Int
  label : Option Label
  span : Span
  deriving DecidableEq

namespace Slot

/-- The slot of a field. -/
def ofField (f : Field) : Slot := ⟨f.name.text, f.number, f.label, f.name.span⟩

/-- The slot of a map field. -/
def ofMap (m : MapField) : Slot := ⟨m.name.text, m.number, none, m.name.span⟩

/-- The slot of a group. -/
def ofGroup (g : Group) : Slot :=
  ⟨g.head.fieldName, g.head.number, g.head.label, g.head.name.span⟩

/-- The slots of a oneof. -/
def ofOneof (o : Oneof) : List Slot :=
  (Member.fields o.body).map ofField ++ (Member.groups o.body).map ofGroup

/-- The slots of a message body. -/
def ofBody (body : List Member) : List Slot :=
  (Member.fields body).map ofField ++ (Member.maps body).map ofMap ++
    (Member.groups body).map ofGroup ++ (Member.oneofs body).flatMap ofOneof

end Slot

/-- The names of the types declared directly in a body. -/
def nestedTypeNames (body : List Member) : List Name :=
  (Member.enums body).map (·.name) ++ (Member.messages body).map (·.head.name) ++
    (Member.groups body).map (·.head.name)

/-- A check of each element against the elements before it. -/
def withEarlier {α β : Type} (check : List α → α → List β) (xs : List α) : List β :=
  xs.zipIdx.flatMap fun (x, i) => check (xs.take i) x

/-- A finding if a condition holds. -/
def findIf (condition : Bool) (p : Problem) (span : Span) : List Finding :=
  if condition then [p.at span] else []

/-- Nested types with the name of an earlier one. -/
def nestedTypes (owner : Text) (body : List Member) : List Finding :=
  withEarlier (fun earlier (n : Name) =>
    findIf (earlier.any (·.text = n.text)) (.nestedTypeRepeated owner n.text) n.span)
    (nestedTypeNames body)

/-- A oneof without members, and labels in it. -/
def oneof (owner : Text) (o : Oneof) : List Finding :=
  findIf ((Member.fields o.body).isEmpty && (Member.groups o.body).isEmpty)
      (.oneofEmpty owner o.head.name.text) o.head.name.span ++
    (Member.fields o.body).flatMap fun f =>
      findIf f.label.isSome (.oneofLabel f.name.text) f.name.span

/-- Uses of reserved numbers and names, statement by statement. -/
def reservedUse (owner : Text) (reservations : List Reserved) (name : Text) (number : Int)
    (span : Span) : List Finding :=
  reservations.flatMap fun r =>
    findIf (r.ranges.any (·.contains number)) (.numberReserved number owner name) span ++
      findIf (r.names.contains name) (.nameReserved owner name) span

/-- A number that no field may have. -/
def slotNumber (s : Slot) : List Finding :=
  if s.number < minFieldNumber || maxFieldNumber < s.number then
    [(Problem.numberOutOfRange s.number s.name).at s.span]
  else
    findIf (firstInternalNumber ≤ s.number && s.number ≤ lastInternalNumber)
      (.numberInternal s.number s.name) s.span

/-- All that is wrong with a slot, given the slots before it. -/
def slot (level3 : Bool) (owner : Text) (body : List Member) (earlier : List Slot) (s : Slot) :
    List Finding :=
  slotNumber s ++
    (match earlier.find? (·.number = s.number) with
      | some first => [(Problem.numberRepeated s.number owner s.name first.name).at s.span]
      | none => []) ++
    findIf (earlier.any (·.name = s.name)) (.fieldNameRepeated owner s.name) s.span ++
    reservedUse owner (Member.reservations body) s.name s.number s.span ++
    (Member.extensionRanges body).flatMap (fun e =>
      findIf (e.ranges.any (·.contains s.number)) (.numberForExtensions s.number owner s.name)
        s.span) ++
    findIf (level3 && s.label = some .required) (.requiredField s.name) s.span

/-- Keys of a type no map key may have. -/
def mapKeys (body : List Member) : List Finding :=
  (Member.maps body).flatMap fun m =>
    findIf (!mapKeyTypes.contains m.key.text) (.mapKey m.key.text m.name.text) m.key.span

/-- Groups where the language has none. -/
def groups (level3 : Bool) (body : List Member) : List Finding :=
  if level3 then
    (Member.groups body).map fun g =>
      (Problem.groupUnsupported g.head.name.text).at g.head.name.span
  else []

/-- All that is wrong with the body of a message or a group, by its full name. -/
def messageBody (level3 : Bool) (owner : Text) (body : List Member) : List Finding :=
  nestedTypes owner body ++ (Member.oneofs body).flatMap (oneof owner) ++
    withEarlier (slot level3 owner body) (Slot.ofBody body) ++ mapKeys body ++ groups level3 body

/-- All that is wrong with a value of an enum, given the values before it. -/
def enumValue (owner : Text) (aliases : Bool) (reservations : List Reserved)
    (earlier : List EnumValue) (v : EnumValue) : List Finding :=
  findIf (earlier.any (·.name.text = v.name.text)) (.valueNameRepeated owner v.name.text)
      v.name.span ++
    (match earlier.find? (·.number = v.number) with
      | some first =>
        findIf (!aliases) (.valueNumberRepeated v.number owner v.name.text first.name.text)
          v.name.span
      | none => []) ++
    reservedUse owner reservations v.name.text v.number v.name.span

/-- Whether two values of a list have one number. -/
def hasAlias : List EnumValue → Bool
  | [] => false
  | v :: rest => rest.any (·.number = v.number) || hasAlias rest

/-- All that is wrong with an enum, by its full name. -/
def enum (level3 : Bool) (owner : Text) (e : Enum) : List Finding :=
  match e.values with
  | [] => [(Problem.enumEmpty owner).at e.name.span]
  | first :: rest =>
    let aliases := e.option? "allow_alias" = some (.flag true)
    findIf (level3 && first.number ≠ 0) (.firstValueNotZero owner) first.name.span ++
      withEarlier (enumValue owner aliases e.reservations) (first :: rest) ++
      findIf (aliases && !hasAlias (first :: rest)) (.aliasUnused owner) e.name.span

/-- The walk that checks bodies. -/
def walk (level3 : Bool) : Walk Finding where
  order := [.message, .group, .oneof, .enum]
  enter scope
    | .message h body => messageBody level3 (qualify scope h.name.text) body
    | .group h body => messageBody level3 (qualify scope h.name.text) body
    | .enum e => enum level3 (qualify scope e.name.text) e
    | _ => []
  leave := fun _ _ => []

/-- Whether a file declares the level `proto3`. -/
def isLevel3 (f : SchemaFile) : Bool :=
  f.level? = some "proto3"

/-- All that is wrong in the bodies of a file. -/
def bodies (f : SchemaFile) : List Finding :=
  (walk (isLevel3 f)).file [.message, .enum] f

end Check
end ProtoAtlas
