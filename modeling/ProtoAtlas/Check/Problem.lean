/-
# Problems

Everything a check can find wrong with a schema file, with its wording.  Problems
are errors but for three that are only warnings.

The text of a problem may name a number of the source.  A number of more than 4300
decimal digits has no text, and then neither has the problem.
-/

import ProtoAtlas.Number.Integer
import ProtoAtlas.Schema.Basic
import ProtoAtlas.Symbol.Basic

namespace ProtoAtlas

/-- How bad a problem is. -/
inductive Severity where
  | error
  | warning
  deriving DecidableEq

/-- The word of a severity. -/
def Severity.word : Severity → Text
  | .error => "error"
  | .warning => "warning"

/-- What can be wrong with a schema file. -/
inductive Problem where
  | notLoaded (uri : Text)
  | malformed (cause : SyntaxCause)
  | levelMissing
  | levelUnknown (version : Text)
  | importRepeated (path : Text)
  | importMissing (path : Text)
  | nestedTypeRepeated (owner name : Text)
  | oneofEmpty (owner name : Text)
  | oneofLabel (field : Text)
  | numberOutOfRange (number : Int) (field : Text)
  | numberInternal (number : Int) (field : Text)
  | numberRepeated (number : Int) (owner field earlier : Text)
  | fieldNameRepeated (owner field : Text)
  | numberReserved (number : Int) (owner name : Text)
  | nameReserved (owner name : Text)
  | numberForExtensions (number : Int) (owner field : Text)
  | requiredField (field : Text)
  | mapKey (key field : Text)
  | groupUnsupported (name : Text)
  | enumEmpty (enum : Text)
  | firstValueNotZero (enum : Text)
  | valueNameRepeated (enum value : Text)
  | valueNumberRepeated (number : Int) (enum value earlier : Text)
  | aliasUnused (enum : Text)
  | typeUnknown (type : Text)
  | extendsNonMessage (type : Text)
  | rpcScalar (rpc type : Text)
  | rpcEnum (rpc type : Text)
  deriving DecidableEq

namespace Problem

/-- The severity of a problem. -/
def severity : Problem → Severity
  | .levelMissing => .warning
  | .importRepeated _ => .warning
  | .aliasUnused _ => .warning
  | _ => .error

/-- The bounds of field numbers as they are shown. -/
def numberBounds : Text :=
  "[" ++ Text.ofNat minFieldNumber.toNat ++ ", " ++ Text.ofNat maxFieldNumber.toNat ++ "]"

/-- The numbers kept for the implementation as they are shown. -/
def internalBounds : Text :=
  Text.ofNat firstInternalNumber.toNat ++ "-" ++ Text.ofNat lastInternalNumber.toNat

/-- The text of a problem, if its numbers have one. -/
def message? : Problem → Option Text
  | .notLoaded uri => some ("File is not loaded: " ++ uri)
  | .malformed cause => some cause.message
  | .levelMissing => some "No syntax specified; defaulting to proto2"
  | .levelUnknown version => some ("Unrecognized syntax '" ++ version ++ "'")
  | .importRepeated path => some ("Duplicate import '" ++ path ++ "'")
  | .importMissing path => some ("Import '" ++ path ++ "' not found")
  | .nestedTypeRepeated owner name =>
    some ("Duplicate nested type name in " ++ owner ++ ": " ++ name)
  | .oneofEmpty owner name =>
    some ("Oneof " ++ owner ++ "." ++ name ++ " must have at least one field")
  | .oneofLabel field => some ("Fields in oneofs must not have labels: " ++ field)
  | .numberOutOfRange number field =>
    (decimalText? number).map fun digits =>
      "Field number " ++ digits ++ " of " ++ field ++ " is out of range " ++ numberBounds
  | .numberInternal number field =>
    (decimalText? number).map fun digits =>
      "Field number " ++ digits ++ " of " ++ field ++ " is in the range " ++ internalBounds ++
        " reserved for the protobuf implementation"
  | .numberRepeated number owner field earlier =>
    (decimalText? number).map fun digits =>
      "Duplicate field number " ++ digits ++ " in " ++ owner ++ ": " ++ field ++ " and " ++ earlier
  | .fieldNameRepeated owner field => some ("Duplicate field name in " ++ owner ++ ": " ++ field)
  | .numberReserved number owner name =>
    (decimalText? number).map fun digits =>
      name ++ " in " ++ owner ++ " uses reserved number " ++ digits
  | .nameReserved owner name => some ("Name '" ++ name ++ "' is reserved in " ++ owner)
  | .numberForExtensions number owner field =>
    (decimalText? number).map fun digits =>
      "Field number " ++ digits ++ " of " ++ field ++ " overlaps an extension range in " ++ owner
  | .requiredField field => some ("Required fields are not allowed in proto3: " ++ field)
  | .mapKey key field =>
    some ("Invalid map key type '" ++ key ++ "' for " ++ field ++
      ": must be an integral, bool or string type")
  | .groupUnsupported name => some ("Groups are not supported in proto3: " ++ name)
  | .enumEmpty enum => some ("Enum " ++ enum ++ " must define at least one value")
  | .firstValueNotZero enum =>
    some ("The first enum value of " ++ enum ++ " must be zero in proto3")
  | .valueNameRepeated enum value =>
    some ("Duplicate enum value name in " ++ enum ++ ": " ++ value)
  | .valueNumberRepeated number enum value earlier =>
    (decimalText? number).map fun digits =>
      "Duplicate enum value " ++ digits ++ " in " ++ enum ++ ": " ++ value ++ " and " ++ earlier ++
        "; set option allow_alias = true to allow aliases"
  | .aliasUnused enum => some ("Enum " ++ enum ++ " sets allow_alias but has no aliases")
  | .typeUnknown type => some ("Unknown type '" ++ type ++ "'")
  | .extendsNonMessage type => some ("'" ++ type ++ "' is not a message type")
  | .rpcScalar rpc type => some ("RPC " ++ rpc ++ " must use a message type, not '" ++ type ++ "'")
  | .rpcEnum rpc type =>
    some ("RPC " ++ rpc ++ " must use a message type, not enum '" ++ type ++ "'")

end Problem

/-- A problem and where it is. -/
structure Finding where
  problem : Problem
  span : Option Span
  deriving DecidableEq

/-- A problem at a span. -/
def Problem.at (p : Problem) (span : Span) : Finding := ⟨p, some span⟩

/-- Whether a finding is an error. -/
def Finding.isError (f : Finding) : Bool :=
  f.problem.severity = .error

/-- A finding put into words. -/
structure Issue where
  severity : Severity
  message : Text
  location : Option Location
  deriving DecidableEq

/-- A finding in a file put into words. -/
def Finding.issue? (uri : Text) (f : Finding) : Option Issue :=
  f.problem.message?.map fun message => ⟨f.problem.severity, message, f.span.map (⟨uri, ·⟩)⟩

/-- An issue with its place in front. -/
def Issue.text (i : Issue) : Text :=
  match i.location with
  | none => i.message
  | some l => l.text ++ ": " ++ i.message

end ProtoAtlas
