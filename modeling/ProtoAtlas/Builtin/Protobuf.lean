/-
# Protobuf stubs

Stubs of the common message types of the language.
-/

import ProtoAtlas.Builtin.Stub

namespace ProtoAtlas
namespace Stub

/-- The file `any.proto` of google.protobuf. -/
def anyFile : Stub where
  path := "google/protobuf/any.proto"
  level := "proto3"
  package := "google.protobuf"
  imports := []
  body := [
    .block "message Any" [
      "string type_url = 1;", "bytes value = 2;"]]

/-- The file `timestamp.proto` of google.protobuf. -/
def timestampFile : Stub where
  path := "google/protobuf/timestamp.proto"
  level := "proto3"
  package := "google.protobuf"
  imports := []
  body := [
    .block "message Timestamp" [
      "int64 seconds = 1;", "int32 nanos = 2;"]]

/-- The file `duration.proto` of google.protobuf. -/
def durationFile : Stub where
  path := "google/protobuf/duration.proto"
  level := "proto3"
  package := "google.protobuf"
  imports := []
  body := [
    .block "message Duration" [
      "int64 seconds = 1;", "int32 nanos = 2;"]]

/-- The file `empty.proto` of google.protobuf. -/
def emptyFile : Stub where
  path := "google/protobuf/empty.proto"
  level := "proto3"
  package := "google.protobuf"
  imports := []
  body := [
    .empty "message Empty"]

/-- The file `field_mask.proto` of google.protobuf. -/
def fieldMaskFile : Stub where
  path := "google/protobuf/field_mask.proto"
  level := "proto3"
  package := "google.protobuf"
  imports := []
  body := [
    .block "message FieldMask" [
      "repeated string paths = 1;"]]

/-- The file `struct.proto` of google.protobuf. -/
def structFile : Stub where
  path := "google/protobuf/struct.proto"
  level := "proto3"
  package := "google.protobuf"
  imports := []
  body := [
    .block "enum NullValue" [
      "NULL_VALUE = 0;"],
    .block "message Struct" [
      "map<string, Value> fields = 1;"],
    .block "message Value" [
      .block "oneof kind" [
        "NullValue null_value = 1;", "double number_value = 2;", "string string_value = 3;",
        "bool bool_value = 4;", "Struct struct_value = 5;", "ListValue list_value = 6;"]],
    .block "message ListValue" [
      "repeated Value values = 1;"]]

/-- The file `wrappers.proto` of google.protobuf. -/
def wrappersFile : Stub where
  path := "google/protobuf/wrappers.proto"
  level := "proto3"
  package := "google.protobuf"
  imports := []
  body := [
    .short "message DoubleValue" "double value = 1;",
    .short "message FloatValue" "float value = 1;",
    .short "message Int64Value" "int64 value = 1;",
    .short "message UInt64Value" "uint64 value = 1;",
    .short "message Int32Value" "int32 value = 1;",
    .short "message UInt32Value" "uint32 value = 1;",
    .short "message BoolValue" "bool value = 1;",
    .short "message StringValue" "string value = 1;",
    .short "message BytesValue" "bytes value = 1;"]

/-- The stubs of the common message types of the language. -/
def protobuf : List Stub :=
  [anyFile, timestampFile, durationFile, emptyFile, fieldMaskFile, structFile, wrappersFile]

end Stub
end ProtoAtlas
