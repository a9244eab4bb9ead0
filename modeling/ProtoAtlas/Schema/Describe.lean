/-
# One-line descriptions

Short descriptions of declarations for listings.  A description that would have
to print an integer of more than `maxDecimalDigits` digits does not exist.
-/

import ProtoAtlas.Number.Shortest
import ProtoAtlas.Schema.Basic
import ProtoAtlas.Text.Quoted

namespace ProtoAtlas

/-- Descriptions in brackets, separated by commas. -/
def describeList? {α : Type} (describe? : α → Option Text) (xs : List α) : Option Text :=
  (xs.mapM describe?).map fun parts => "[" ++ Text.join ", " parts ++ "]"

/-- An option value; texts are quoted. -/
def OptionValue.describe? : OptionValue → Option Text
  | .text t => some (Text.quoted t)
  | .integer n => decimalText? n
  | .real x => some x.text
  | .flag b => some (if b then "True" else "False")

/-- An option with its value. -/
def OptionDecl.describe? (o : OptionDecl) : Option Text :=
  o.value.describe?.map fun value => "Option(" ++ o.name.text ++ " = " ++ value ++ ")"

/-- A word and a blank, if there is a word. -/
def describeModifier (word : Option Text) : Text :=
  match word with
  | some w => w ++ " "
  | none => ""

/-- An import with its modifier. -/
def ImportDecl.describe (i : ImportDecl) : Text :=
  "Import(" ++ describeModifier (i.modifier.map ImportModifier.word) ++ "\"" ++ i.path.text ++ "\")"

/-- A field as it is declared, without its options. -/
def Field.describe? (f : Field) : Option Text :=
  (decimalText? f.number).map fun number =>
    "Field(" ++ describeModifier (f.label.map Label.word) ++ f.type.text ++ " " ++ f.name.text ++
      " = " ++ number ++ ")"

/-- A map field as it is declared, without its options. -/
def MapField.describe? (m : MapField) : Option Text :=
  (decimalText? m.number).map fun number =>
    "MapField(map<" ++ m.key.text ++ ", " ++ m.value.text ++ "> " ++ m.name.text ++ " = " ++
      number ++ ")"

/-- A value of an enum. -/
def EnumValue.describe? (v : EnumValue) : Option Text :=
  (decimalText? v.number).map fun number => "EnumValue(" ++ v.name.text ++ " = " ++ number ++ ")"

/-- An enum with its values. -/
def Enum.describe? (e : Enum) : Option Text :=
  (describeList? EnumValue.describe? e.values).map fun values =>
    "Enum(" ++ e.name.text ++ ", values=" ++ values ++ ")"

/-- A message with its fields, and how many types are nested in it. -/
def Message.describe? (m : Message) : Option Text :=
  let messages := (Member.messages m.body).length
  let enums := (Member.enums m.body).length
  let nested : Text :=
    if messages = 0 ∧ enums = 0 then ""
    else ", nested=" ++ Text.ofNat messages ++ "msg+" ++ Text.ofNat enums ++ "enum"
  (describeList? Field.describe? (Member.fields m.body)).map fun fields =>
    "Message(" ++ m.head.name.text ++ ", fields=" ++ fields ++ nested ++ ")"

/-- A procedure with its types. -/
def Rpc.describe (r : Rpc) : Text :=
  let streamed (streams : Bool) (type : Text) : Text := if streams then "stream " ++ type else type
  "Rpc(" ++ r.name.text ++ "(" ++ streamed r.requestStreams r.request.text ++ ") returns (" ++
    streamed r.responseStreams r.response.text ++ "))"

/-- A file with its package and the numbers of its declarations. -/
def SchemaFile.describe (f : SchemaFile) : Text :=
  let package : Text := if f.packageName.isEmpty then "None" else f.packageName
  let count (n : Nat) : Text := Text.ofNat n
  "ProtoFile(package=" ++ package ++ ", imports=" ++ count f.imports.length ++ ", messages=" ++
    count (Member.messages f.members).length ++ ", enums=" ++
    count (Member.enums f.members).length ++ ", services=" ++ count f.services.length ++
    ", errors=" ++ count f.faults.length ++ ")"

/-- The listing of a file: the file, its imports, options, messages and enums; then
for each message its options, fields, map fields, messages and enums and the
options of its fields and map fields; then all procedures; last the place of the
whole file. -/
def SchemaFile.listing? (f : SchemaFile) : Option (List Text) := do
  let messages := Member.messages f.members
  let options ← (Member.options f.members).mapM OptionDecl.describe?
  let heads ← messages.mapM Message.describe?
  let enums ← (Member.enums f.members).mapM Enum.describe?
  let inner ← messages.mapM fun m => do
    let options ← (Member.options m.body).mapM OptionDecl.describe?
    let fields ← (Member.fields m.body).mapM Field.describe?
    let maps ← (Member.maps m.body).mapM MapField.describe?
    let nested ← (Member.messages m.body).mapM Message.describe?
    let nestedEnums ← (Member.enums m.body).mapM Enum.describe?
    let attached := (Member.fields m.body).flatMap (·.options) ++
      (Member.maps m.body).flatMap (·.options)
    return options ++ fields ++ maps ++ nested ++ nestedEnums ++
      (← attached.mapM OptionDecl.describe?)
  let rpcs := f.services.flatMap fun s => s.rpcs.map Rpc.describe
  return [f.describe] ++ f.imports.map ImportDecl.describe ++ options ++ heads ++ enums ++
    inner.flatten ++ rpcs ++ [Span.text f.span]

end ProtoAtlas
