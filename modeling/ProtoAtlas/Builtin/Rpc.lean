/-
# Rpc stubs

Stubs of status codes and error details.
-/

import ProtoAtlas.Builtin.Stub

namespace ProtoAtlas
namespace Stub

/-- The file `code.proto` of google.rpc. -/
def codeFile : Stub where
  path := "google/rpc/code.proto"
  level := "proto3"
  package := "google.rpc"
  imports := []
  body := [
    .block "enum Code" [
      "OK = 0;", "CANCELLED = 1;", "UNKNOWN = 2;", "INVALID_ARGUMENT = 3;",
      "DEADLINE_EXCEEDED = 4;", "NOT_FOUND = 5;", "ALREADY_EXISTS = 6;", "PERMISSION_DENIED = 7;",
      "RESOURCE_EXHAUSTED = 8;", "FAILED_PRECONDITION = 9;", "ABORTED = 10;",
      "OUT_OF_RANGE = 11;", "UNIMPLEMENTED = 12;", "INTERNAL = 13;", "UNAVAILABLE = 14;",
      "DATA_LOSS = 15;", "UNAUTHENTICATED = 16;"]]

/-- The file `status.proto` of google.rpc. -/
def statusFile : Stub where
  path := "google/rpc/status.proto"
  level := "proto3"
  package := "google.rpc"
  imports := ["google/protobuf/any.proto"]
  body := [
    .block "message Status" [
      "int32 code = 1;", "string message = 2;", "repeated google.protobuf.Any details = 3;"]]

/-- The file `error_details.proto` of google.rpc. -/
def errorDetailsFile : Stub where
  path := "google/rpc/error_details.proto"
  level := "proto3"
  package := "google.rpc"
  imports := ["google/protobuf/duration.proto"]
  body := [
    .block "message RetryInfo" [
      "google.protobuf.Duration retry_delay = 1;"],
    .block "message DebugInfo" [
      "repeated string stack_entries = 1;", "string detail = 2;"],
    .block "message QuotaFailure" [
      .block "message Violation" [
        "string subject = 1;", "string description = 2;"],
      "repeated Violation violations = 1;"],
    .block "message ErrorInfo" [
      "string reason = 1;", "string domain = 2;", "map<string, string> metadata = 3;"],
    .block "message PreconditionFailure" [
      .block "message Violation" [
        "string type = 1;", "string subject = 2;", "string description = 3;"],
      "repeated Violation violations = 1;"],
    .block "message BadRequest" [
      .block "message FieldViolation" [
        "string field = 1;", "string description = 2;"],
      "repeated FieldViolation field_violations = 1;"],
    .block "message RequestInfo" [
      "string request_id = 1;", "string serving_data = 2;"],
    .block "message ResourceInfo" [
      "string resource_type = 1;", "string resource_name = 2;", "string owner = 3;",
      "string description = 4;"],
    .block "message Help" [
      .block "message Link" [
        "string description = 1;", "string url = 2;"],
      "repeated Link links = 1;"],
    .block "message LocalizedMessage" [
      "string locale = 1;", "string message = 2;"]]

/-- The stubs of status codes and error details. -/
def rpc : List Stub :=
  [codeFile, statusFile, errorDetailsFile]

end Stub
end ProtoAtlas
