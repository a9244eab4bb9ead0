/-
# Walking a schema tree

The declarations of a body have a source order, but reports list them kind by
kind.  A walk visits the members of a body in a given order of kinds, and within
a kind in source order; members of a kind that the order does not name are left
out.

A walk carries the scope a member is declared in.  The body of a message or a
group is in the scope of its full name; the body of a oneof or an extend block is
in the scope around it.
-/

import ProtoAtlas.Schema.Basic

namespace ProtoAtlas

/-- A name inside a scope; the empty scope adds nothing. -/
def qualify (scope name : Text) : Text :=
  if scope.isEmpty then name else scope ++ "." ++ name

/-- The kinds of members. -/
inductive MemberKind where
  | field
  | map
  | group
  | oneof
  | message
  | enum
  | extend
  | option
  | reserved
  | extensions
  deriving DecidableEq

/-- The kind of a member. -/
def Member.kind : Member → MemberKind
  | .field _ => .field
  | .map _ => .map
  | .group _ _ => .group
  | .oneof _ _ => .oneof
  | .message _ _ => .message
  | .enum _ => .enum
  | .extend _ _ => .extend
  | .option _ => .option
  | .reserved _ => .reserved
  | .extensions _ => .extensions

/-- What a walk collects, and in which order it visits the kinds. -/
structure Walk (α : Type) where
  order : List MemberKind
  /-- Collected from a member before its body, given the scope around it. -/
  enter : Text → Member → List α
  /-- Collected from a member after its body, given the scope around it. -/
  leave : Text → Member → List α

namespace Walk

variable {α : Type}

/-- What was collected of the kinds of an order, kind by kind. -/
def inOrder (order : List MemberKind) (collected : List (MemberKind × List α)) : List α :=
  order.flatMap fun kind => (collected.filter (·.1 = kind)).flatMap (·.2)

mutual

/-- Walks a member and all that is in it. -/
def member (w : Walk α) (scope : Text) : Member → List α
  | .group head body =>
    w.enter scope (.group head body) ++
      inOrder w.order (w.members (qualify scope head.name.text) body) ++
      w.leave scope (.group head body)
  | .oneof head body =>
    w.enter scope (.oneof head body) ++ inOrder w.order (w.members scope body) ++
      w.leave scope (.oneof head body)
  | .message head body =>
    w.enter scope (.message head body) ++
      inOrder w.order (w.members (qualify scope head.name.text) body) ++
      w.leave scope (.message head body)
  | .extend head body =>
    w.enter scope (.extend head body) ++ inOrder w.order (w.members scope body) ++
      w.leave scope (.extend head body)
  | .field f => w.enter scope (.field f) ++ w.leave scope (.field f)
  | .map m => w.enter scope (.map m) ++ w.leave scope (.map m)
  | .enum e => w.enter scope (.enum e) ++ w.leave scope (.enum e)
  | .option o => w.enter scope (.option o) ++ w.leave scope (.option o)
  | .reserved r => w.enter scope (.reserved r) ++ w.leave scope (.reserved r)
  | .extensions e => w.enter scope (.extensions e) ++ w.leave scope (.extensions e)

/-- Walks the members of a body, each with its kind. -/
def members (w : Walk α) (scope : Text) : List Member → List (MemberKind × List α)
  | [] => []
  | m :: rest => (m.kind, w.member scope m) :: w.members scope rest

end

/-- Walks the members of a file that have one of the given kinds, kind by kind. -/
def file (w : Walk α) (kinds : List MemberKind) (f : SchemaFile) : List α :=
  inOrder kinds (w.members f.packageName f.members)

end Walk
end ProtoAtlas
