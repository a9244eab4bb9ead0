/-
# Platform stubs

Stubs of long-running operations, logging and audit records.
-/

import ProtoAtlas.Builtin.Stub

namespace ProtoAtlas
namespace Stub

/-- The file `operations.proto` of google.longrunning. -/
def operationsFile : Stub where
  path := "google/longrunning/operations.proto"
  level := "proto3"
  package := "google.longrunning"
  imports := ["google/protobuf/any.proto", "google/rpc/status.proto"]
  body := [
    .block "message Operation" [
      "string name = 1;", "google.protobuf.Any metadata = 2;", "bool done = 3;",
      "google.rpc.Status error = 4;", "google.protobuf.Any response = 5;"]]

/-- The file `http_request.proto` of google.logging.type. -/
def httpRequestFile : Stub where
  path := "google/logging/type/http_request.proto"
  level := "proto3"
  package := "google.logging.type"
  imports := []
  body := [
    .block "message HttpRequest" [
      "string request_method = 1;", "string request_url = 2;", "int64 status = 3;",
      "int64 response_size = 4;", "string user_agent = 5;", "string remote_ip = 6;",
      "string referer = 7;", "bool cache_hit = 8;", "bool cache_validated_with_origin_server = 9;"]]

/-- The file `log_severity.proto` of google.logging.type. -/
def logSeverityFile : Stub where
  path := "google/logging/type/log_severity.proto"
  level := "proto3"
  package := "google.logging.type"
  imports := []
  body := [
    .block "enum LogSeverity" [
      "DEFAULT = 0;", "DEBUG = 100;", "INFO = 200;", "NOTICE = 300;", "WARNING = 400;",
      "ERROR = 500;", "CRITICAL = 600;", "ALERT = 700;", "EMERGENCY = 800;"]]

/-- The file `audit_log.proto` of google.cloud.audit. -/
def auditLogFile : Stub where
  path := "google/cloud/audit/audit_log.proto"
  level := "proto3"
  package := "google.cloud.audit"
  imports := ["google/rpc/status.proto"]
  body := [
    .block "message AuditLog" [
      "string service_name = 7;", "string method_name = 8;", "string resource_name = 11;",
      "string principal_subject = 13;", "google.rpc.Status status = 2;"]]

/-- The stubs of long-running operations, logging and audit records. -/
def platform : List Stub :=
  [operationsFile, httpRequestFile, logSeverityFile, auditLogFile]

end Stub
end ProtoAtlas
