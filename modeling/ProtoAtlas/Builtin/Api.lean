/-
# Api stubs

Stubs of the annotations of service interfaces.
-/

import ProtoAtlas.Builtin.Stub

namespace ProtoAtlas
namespace Stub

/-- The file `http.proto` of google.api. -/
def httpFile : Stub where
  path := "google/api/http.proto"
  level := "proto3"
  package := "google.api"
  imports := []
  body := [
    .block "message Http" [
      "repeated HttpRule rules = 1;", "bool fully_decode_reserved_expansion = 2;"],
    .block "message HttpRule" [
      "string selector = 1;", "string get = 2;", "string put = 3;", "string post = 4;",
      "string delete = 5;", "string patch = 6;", "CustomHttpPattern custom = 8;",
      "repeated HttpRule additional_bindings = 11;"],
    .block "message CustomHttpPattern" [
      "string kind = 1;", "string path = 2;"]]

/-- The file `annotations.proto` of google.api. -/
def annotationsFile : Stub where
  path := "google/api/annotations.proto"
  level := "proto3"
  package := "google.api"
  imports := []
  body := [
    "// Placeholder for option definitions; kept minimal for tooling."]

/-- The file `field_behavior.proto` of google.api. -/
def fieldBehaviorFile : Stub where
  path := "google/api/field_behavior.proto"
  level := "proto3"
  package := "google.api"
  imports := []
  body := [
    .block "enum FieldBehavior" [
      "FIELD_BEHAVIOR_UNSPECIFIED = 0;", "OPTIONAL = 1;", "REQUIRED = 2;", "OUTPUT_ONLY = 3;",
      "INPUT_ONLY = 4;", "IMMUTABLE = 5;"]]

/-- The file `resource.proto` of google.api. -/
def resourceFile : Stub where
  path := "google/api/resource.proto"
  level := "proto3"
  package := "google.api"
  imports := []
  body := [
    .block "message ResourceDescriptor" [
      "string type = 1;", "repeated string pattern = 2;", "string name_field = 3;",
      "string history = 4;", "repeated string plural = 5;", "string singular = 6;"],
    .block "message ResourceReference" [
      "string type = 1;", "string child_type = 2;"]]

/-- The file `client.proto` of google.api. -/
def clientFile : Stub where
  path := "google/api/client.proto"
  level := "proto3"
  package := "google.api"
  imports := []
  body := [
    .block "enum ClientLibraryOrganization" [
      "CLIENT_LIBRARY_ORGANIZATION_UNSPECIFIED = 0;", "GOOGLE = 1;", "CLOUD = 2;"],
    .block "enum ClientLibraryDestination" [
      "CLIENT_LIBRARY_DESTINATION_UNSPECIFIED = 0;", "GITHUB = 10;", "PACKAGE_MANAGER = 20;"],
    .block "message CommonLanguageSettings" [
      "string reference_docs_uri = 1;", "repeated string destinations = 2;"]]

/-- The file `launch_stage.proto` of google.api. -/
def launchStageFile : Stub where
  path := "google/api/launch_stage.proto"
  level := "proto3"
  package := "google.api"
  imports := []
  body := [
    .block "enum LaunchStage" [
      "LAUNCH_STAGE_UNSPECIFIED = 0;", "UNIMPLEMENTED = 6;", "PRELAUNCH = 7;",
      "EARLY_ACCESS = 1;", "ALPHA = 2;", "BETA = 3;", "GA = 4;", "DEPRECATED = 5;"]]

/-- The file `visibility.proto` of google.api. -/
def visibilityFile : Stub where
  path := "google/api/visibility.proto"
  level := "proto3"
  package := "google.api"
  imports := []
  body := [
    .block "message VisibilityRule" [
      "string selector = 1;", "string restriction = 2;"],
    .block "message Visibility" [
      "repeated VisibilityRule rules = 1;"]]

/-- The stubs of the annotations of service interfaces. -/
def api : List Stub :=
  [httpFile, annotationsFile, fieldBehaviorFile, resourceFile, clientFile, launchStageFile,
    visibilityFile]

end Stub
end ProtoAtlas
