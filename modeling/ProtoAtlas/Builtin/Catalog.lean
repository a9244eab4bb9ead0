/-
# The catalogue of stubs

All stubs in their fixed order, by which a new workspace registers them.
-/

import ProtoAtlas.Builtin.Api
import ProtoAtlas.Builtin.CommonType
import ProtoAtlas.Builtin.Descriptor
import ProtoAtlas.Builtin.Platform
import ProtoAtlas.Builtin.Protobuf
import ProtoAtlas.Builtin.Rpc

namespace ProtoAtlas
namespace Stub

/-- All stubs, in the order a workspace registers them. -/
def catalog : List Stub :=
  descriptorFile :: protobuf ++ rpc ++ commonType ++ api ++ platform

/-- The import paths of all stubs. -/
def paths : List Text :=
  catalog.map (·.path)

/-- The stub with an import path. -/
def find? (path : Text) : Option Stub :=
  catalog.find? (·.path = path)

/-- Whether an import path is that of a stub. -/
def isKnown (path : Text) : Bool :=
  paths.contains path

end Stub
end ProtoAtlas
