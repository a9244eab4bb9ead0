/-
# CommonType stubs

Stubs of dates, places, amounts and other common values.
-/

import ProtoAtlas.Builtin.Stub

namespace ProtoAtlas
namespace Stub

/-- The file `date.proto` of google.type. -/
def dateFile : Stub where
  path := "google/type/date.proto"
  level := "proto3"
  package := "google.type"
  imports := []
  body := [
    .block "message Date" [
      "int32 year = 1;", "int32 month = 2;", "int32 day = 3;"]]

/-- The file `timeofday.proto` of google.type. -/
def timeofdayFile : Stub where
  path := "google/type/timeofday.proto"
  level := "proto3"
  package := "google.type"
  imports := []
  body := [
    .block "message TimeOfDay" [
      "int32 hours = 1;", "int32 minutes = 2;", "int32 seconds = 3;", "int32 nanos = 4;"]]

/-- The file `datetime.proto` of google.type. -/
def datetimeFile : Stub where
  path := "google/type/datetime.proto"
  level := "proto3"
  package := "google.type"
  imports := []
  body := [
    .block "message TimeZone" [
      "string id = 1;", "int32 version = 2;"],
    .block "message DateTime" [
      "int32 year = 1;", "int32 month = 2;", "int32 day = 3;", "int32 hours = 4;",
      "int32 minutes = 5;", "int32 seconds = 6;", "int32 nanos = 7;",
      .block "oneof time_offset" [
        "int32 utc_offset = 8;", "TimeZone time_zone = 9;"]]]

/-- The file `latlng.proto` of google.type. -/
def latlngFile : Stub where
  path := "google/type/latlng.proto"
  level := "proto3"
  package := "google.type"
  imports := []
  body := [
    .block "message LatLng" [
      "double latitude = 1;", "double longitude = 2;"]]

/-- The file `money.proto` of google.type. -/
def moneyFile : Stub where
  path := "google/type/money.proto"
  level := "proto3"
  package := "google.type"
  imports := []
  body := [
    .block "message Money" [
      "string currency_code = 1;", "int64 units = 2;", "int32 nanos = 3;"]]

/-- The file `color.proto` of google.type. -/
def colorFile : Stub where
  path := "google/type/color.proto"
  level := "proto3"
  package := "google.type"
  imports := []
  body := [
    .block "message Color" [
      "float red = 1;", "float green = 2;", "float blue = 3;", "float alpha = 4;"]]

/-- The file `postal_address.proto` of google.type. -/
def postalAddressFile : Stub where
  path := "google/type/postal_address.proto"
  level := "proto3"
  package := "google.type"
  imports := []
  body := [
    .block "message PostalAddress" [
      "string region_code = 1;", "string language_code = 2;", "string postal_code = 3;",
      "string administrative_area = 4;", "string locality = 5;", "string sublocality = 6;",
      "repeated string address_lines = 7;", "repeated string recipients = 8;",
      "string organization = 9;"]]

/-- The file `phone_number.proto` of google.type. -/
def phoneNumberFile : Stub where
  path := "google/type/phone_number.proto"
  level := "proto3"
  package := "google.type"
  imports := []
  body := [
    .block "message PhoneNumber" [
      "string e164_number = 1;", "string extension = 2;"]]

/-- The file `localized_text.proto` of google.type. -/
def localizedTextFile : Stub where
  path := "google/type/localized_text.proto"
  level := "proto3"
  package := "google.type"
  imports := []
  body := [
    .block "message LocalizedText" [
      "string text = 1;", "string language_code = 2;"]]

/-- The file `expr.proto` of google.type. -/
def exprFile : Stub where
  path := "google/type/expr.proto"
  level := "proto3"
  package := "google.type"
  imports := []
  body := [
    .block "message Expr" [
      "string expression = 1;", "string title = 2;", "string description = 3;",
      "string location = 4;"]]

/-- The stubs of dates, places, amounts and other common values. -/
def commonType : List Stub :=
  [dateFile, timeofdayFile, datetimeFile, latlngFile, moneyFile, colorFile, postalAddressFile,
    phoneNumberFile, localizedTextFile, exprFile]

end Stub
end ProtoAtlas
