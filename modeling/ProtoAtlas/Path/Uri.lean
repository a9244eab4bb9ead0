/-
# File URIs

A file on disk is known by a URI: `file://` and its absolute path, where every
byte of the path's UTF-8 form but letters, digits, `_`, `.`, `-`, `~` and the
slashes is written as `%` and two hexadecimal digits.  A stub that comes with the
library is known by `builtin:///` and its import path.

Reading a URI decodes `%` escapes by runs of ASCII characters; an ill-formed run
of bytes shows as `U+FFFD`, and a `%` without two digits stays.
-/

import ProtoAtlas.Path.Lexical
import ProtoAtlas.Text.Utf8

namespace ProtoAtlas
namespace Uri

/-- The start of every file URI. -/
def fileScheme : Text := "file://"

/-- The start of every stub's URI. -/
def builtinScheme : Text := "builtin:///"

/-- The value of an escape's two digits. -/
def escapeByte? (high low : CodePoint) : Option UInt8 :=
  if high.isHexDigit && low.isHexDigit then
    some (UInt8.ofNat (high.hexValue * 16 + low.hexValue))
  else none

/-- Decodes `%` escapes, where `run` holds the bytes of the ASCII run so far, the
latest first. -/
def decodeFrom (run : List UInt8) : Text → Text
  | [] => Utf8.decodeLossy run.reverse
  | c :: cs =>
    if c.val < 0x80 then
      if c = CodePoint.ofChar '%' then
        match cs with
        | high :: low :: rest =>
          match escapeByte? high low with
          | some b => decodeFrom (b :: run) rest
          | none => decodeFrom (UInt8.ofNat c.val :: run) (high :: low :: rest)
        | [high] => decodeFrom (UInt8.ofNat c.val :: run) [high]
        | [] => decodeFrom (UInt8.ofNat c.val :: run) []
      else decodeFrom (UInt8.ofNat c.val :: run) cs
    else Utf8.decodeLossy run.reverse ++ c :: decodeFrom [] cs

/-- A text with its `%` escapes decoded. -/
def decode (t : Text) : Text :=
  decodeFrom [] t

/-- Whether a byte stands for itself in a URI. -/
def isPlain (b : UInt8) : Bool :=
  let n := b.toNat
  ('a'.toNat ≤ n && n ≤ 'z'.toNat) || ('A'.toNat ≤ n && n ≤ 'Z'.toNat) ||
    ('0'.toNat ≤ n && n ≤ '9'.toNat) || n = '_'.toNat || n = '.'.toNat || n = '-'.toNat ||
    n = '~'.toNat || n = '/'.toNat

/-- A byte in a URI. -/
def encodeByte (b : UInt8) : Text :=
  if isPlain b then [⟨b.toNat, Nat.lt_trans b.toNat_lt (by decide)⟩]
  else CodePoint.ofChar '%' :: Utf8.hexByte (fun n => (Nat.digitChar n).toUpper) b

/-- A path in a URI. -/
def encode (path : Text) : Text :=
  (Utf8.encode path).flatMap encodeByte

/-- The URI of the file with an absolute path. -/
def ofPath (path : Text) : Text :=
  fileScheme ++ encode path

/-- The path without the slash before a drive letter. -/
def dropDriveSlash (path : Text) : Text :=
  match path with
  | first :: _ :: third :: _ =>
    if first = Path.slash ∧ third = CodePoint.ofChar ':' then path.tail else path
  | _ => path

/-- The path a URI stands for.  What is no file URI is taken as a path. -/
def toPath (uri : Text) : Text :=
  match Text.dropPrefix? fileScheme uri with
  | some rest => Path.normalize (dropDriveSlash (decode rest))
  | none => Path.normalize uri

/-- The URI of a stub. -/
def ofBuiltin (path : Text) : Text :=
  builtinScheme ++ path

/-- The import path of a stub. -/
def builtinPath? (uri : Text) : Option Text :=
  Text.dropPrefix? builtinScheme uri

/-- Whether a URI is that of a stub. -/
def isBuiltin (uri : Text) : Bool :=
  builtinScheme.isPrefixOf uri

/-- The URI of an absolute path after cleaning; it has one root. -/
def ofUnclean (path : Text) : Text :=
  ofPath (Path.slash :: Text.join [Path.slash] (Path.cleanParts path))

end Uri
end ProtoAtlas
