/-
# The schema tree

A schema file is a list of declarations in source order, and so is the body of
every message, group, oneof, enum, service and extend block.  Lists of one kind
(the fields of a message, the enums of a file) are read off these lists and keep
the source order.

`Member` is the one recursive type: a declaration inside a body, or one that can
also stand inside a body.  Which members occur where:

| body | members |
| --- | --- |
| message, group | all |
| oneof | fields, groups, options |
| extend | fields, groups |
| file | messages, enums, extend blocks, options |
-/

import ProtoAtlas.Number.Binary64
import ProtoAtlas.Schema.Fault

namespace ProtoAtlas

/-- Where a declaration stands and the comments it carries. -/
structure NodeInfo where
  span : Span
  comments : Option Text
  trailing : Option Text
  deriving DecidableEq

/-- A name or a type as it is written, and where. -/
structure Name where
  text : Text
  span : Span
  deriving DecidableEq

/-- The value of an option.  A name or an aggregate in braces is a text. -/
inductive OptionValue where
  | text (value : Text)
  | integer (value : Int)
  | real (value : Binary64)
  | flag (value : Bool)
  deriving DecidableEq

/-- An option, as a statement or in brackets. -/
structure OptionDecl where
  name : Name
  value : OptionValue
  info : NodeInfo
  deriving DecidableEq

/-- The labels of a field. -/
inductive Label where
  | optional
  | required
  | repeated
  deriving DecidableEq

/-- The word of a label. -/
def Label.word : Label → Text
  | .optional => "optional"
  | .required => "required"
  | .repeated => "repeated"

/-- The label a word stands for. -/
def Label.ofText? (t : Text) : Option Label :=
  if t = Label.optional.word then some .optional
  else if t = Label.required.word then some .required
  else if t = Label.repeated.word then some .repeated
  else none

/-- Field and group numbers from the first to the last, both included. -/
structure NumberRange where
  first : Int
  last : Int
  /-- Whether the last number is written `max`. -/
  toMax : Bool
  deriving DecidableEq

/-- Whether a number lies in a range. -/
def NumberRange.contains (r : NumberRange) (n : Int) : Bool :=
  r.first ≤ n && n ≤ r.last

/-- Numbers and names that must not be used. -/
structure Reserved where
  ranges : List NumberRange
  names : List Text
  info : NodeInfo
  deriving DecidableEq

/-- Numbers that are left to extensions. -/
structure Extensions where
  ranges : List NumberRange
  options : List OptionDecl
  info : NodeInfo
  deriving DecidableEq

/-- A field.  A leading dot of its type is kept. -/
structure Field where
  name : Name
  type : Name
  number : Int
  label : Option Label
  options : List OptionDecl
  info : NodeInfo
  deriving DecidableEq

/-- A map field. -/
structure MapField where
  name : Name
  key : Name
  value : Name
  number : Int
  options : List OptionDecl
  info : NodeInfo
  deriving DecidableEq

/-- A value of an enum. -/
structure EnumValue where
  name : Name
  number : Int
  options : List OptionDecl
  info : NodeInfo
  deriving DecidableEq

/-- What stands in the body of an enum. -/
inductive EnumMember where
  | value (v : EnumValue)
  | option (o : OptionDecl)
  | reserved (r : Reserved)
  deriving DecidableEq

/-- An enum. -/
structure Enum where
  name : Name
  members : List EnumMember
  info : NodeInfo
  deriving DecidableEq

/-- A procedure of a service. -/
structure Rpc where
  name : Name
  request : Name
  response : Name
  requestStreams : Bool
  responseStreams : Bool
  options : List OptionDecl
  info : NodeInfo
  deriving DecidableEq

/-- What stands in the body of a service. -/
inductive ServiceMember where
  | rpc (r : Rpc)
  | option (o : OptionDecl)
  deriving DecidableEq

/-- A service. -/
structure Service where
  name : Name
  members : List ServiceMember
  info : NodeInfo
  deriving DecidableEq

/-- A message or a oneof without its body. -/
structure BlockHead where
  name : Name
  info : NodeInfo
  deriving DecidableEq

/-- A group without its body: a field and a message declared together. -/
structure GroupHead where
  name : Name
  number : Int
  label : Option Label
  /-- The options in brackets. -/
  options : List OptionDecl
  info : NodeInfo
  deriving DecidableEq

/-- An extend block without its body. -/
structure ExtendHead where
  target : Name
  info : NodeInfo
  deriving DecidableEq

/-- A declaration that can stand in a body. -/
inductive Member where
  | field (f : Field)
  | map (m : MapField)
  | group (head : GroupHead) (body : List Member)
  | oneof (head : BlockHead) (body : List Member)
  | message (head : BlockHead) (body : List Member)
  | enum (e : Enum)
  | extend (head : ExtendHead) (body : List Member)
  | option (o : OptionDecl)
  | reserved (r : Reserved)
  | extensions (e : Extensions)

/-- The name of the field a group declares. -/
def GroupHead.fieldName (g : GroupHead) : Text :=
  g.name.text.lower

/-- A group with its body. -/
structure Group where
  head : GroupHead
  body : List Member

/-- A oneof with its body. -/
structure Oneof where
  head : BlockHead
  body : List Member

/-- A message with its body. -/
structure Message where
  head : BlockHead
  body : List Member

/-- An extend block with its body. -/
structure Extend where
  head : ExtendHead
  body : List Member

/-! ### The members of one kind -/

namespace Member

/-- The fields of a body. -/
def fields (body : List Member) : List Field :=
  body.filterMap fun | .field f => some f | _ => none

/-- The map fields of a body. -/
def maps (body : List Member) : List MapField :=
  body.filterMap fun | .map m => some m | _ => none

/-- The groups of a body. -/
def groups (body : List Member) : List Group :=
  body.filterMap fun | .group h b => some ⟨h, b⟩ | _ => none

/-- The oneofs of a body. -/
def oneofs (body : List Member) : List Oneof :=
  body.filterMap fun | .oneof h b => some ⟨h, b⟩ | _ => none

/-- The messages of a body. -/
def messages (body : List Member) : List Message :=
  body.filterMap fun | .message h b => some ⟨h, b⟩ | _ => none

/-- The enums of a body. -/
def enums (body : List Member) : List Enum :=
  body.filterMap fun | .enum e => some e | _ => none

/-- The extend blocks of a body. -/
def extensionBlocks (body : List Member) : List Extend :=
  body.filterMap fun | .extend h b => some ⟨h, b⟩ | _ => none

/-- The option statements of a body. -/
def options (body : List Member) : List OptionDecl :=
  body.filterMap fun | .option o => some o | _ => none

/-- The reserved statements of a body. -/
def reservations (body : List Member) : List Reserved :=
  body.filterMap fun | .reserved r => some r | _ => none

/-- The extensions statements of a body. -/
def extensionRanges (body : List Member) : List Extensions :=
  body.filterMap fun | .extensions e => some e | _ => none

end Member

/-- All options of a group: those in brackets, then those of the body. -/
def Group.options (g : Group) : List OptionDecl :=
  g.head.options ++ Member.options g.body

namespace Enum

/-- The values of an enum. -/
def values (e : Enum) : List EnumValue :=
  e.members.filterMap fun | .value v => some v | _ => none

/-- The options of an enum. -/
def options (e : Enum) : List OptionDecl :=
  e.members.filterMap fun | .option o => some o | _ => none

/-- The reserved statements of an enum. -/
def reservations (e : Enum) : List Reserved :=
  e.members.filterMap fun | .reserved r => some r | _ => none

/-- The value of the first option with a name. -/
def option? (e : Enum) (name : Text) : Option OptionValue :=
  (e.options.find? (·.name.text = name)).map (·.value)

end Enum

namespace Service

/-- The procedures of a service. -/
def rpcs (s : Service) : List Rpc :=
  s.members.filterMap fun | .rpc r => some r | _ => none

/-- The options of a service. -/
def options (s : Service) : List OptionDecl :=
  s.members.filterMap fun | .option o => some o | _ => none

end Service

/-! ### Files -/

/-- The declaration of the language level. -/
structure SyntaxDecl where
  version : Text
  info : NodeInfo
  deriving DecidableEq

/-- The declaration of an edition. -/
structure EditionDecl where
  edition : Text
  info : NodeInfo
  deriving DecidableEq

/-- The declaration of a package. -/
structure PackageDecl where
  name : Name
  info : NodeInfo
  deriving DecidableEq

/-- The words that may follow `import`. -/
inductive ImportModifier where
  | reexport
  | weak
  deriving DecidableEq

/-- The word of an import modifier. -/
def ImportModifier.word : ImportModifier → Text
  | .reexport => "public"
  | .weak => "weak"

/-- An import of another file. -/
structure ImportDecl where
  path : Name
  modifier : Option ImportModifier
  info : NodeInfo
  deriving DecidableEq

/-- A declaration at the top of a file. -/
inductive Item where
  | syntaxLevel (d : SyntaxDecl)
  | edition (d : EditionDecl)
  | package (d : PackageDecl)
  | importing (d : ImportDecl)
  | service (s : Service)
  /-- A message, an enum, an extend block or an option. -/
  | member (m : Member)

/-- A schema file: its declarations and what is wrong with its text. -/
structure SchemaFile where
  uri : Text
  span : Span
  items : List Item
  faults : List SyntaxFault

namespace SchemaFile

variable (f : SchemaFile)

/-- The declaration of the language level. -/
def syntaxDecl? : Option SyntaxDecl :=
  f.items.findSome? fun | .syntaxLevel d => some d | _ => none

/-- The declaration of the edition. -/
def editionDecl? : Option EditionDecl :=
  f.items.findSome? fun | .edition d => some d | _ => none

/-- The declaration of the package. -/
def packageDecl? : Option PackageDecl :=
  f.items.findSome? fun | .package d => some d | _ => none

/-- The imports of a file. -/
def imports : List ImportDecl :=
  f.items.filterMap fun | .importing d => some d | _ => none

/-- The services of a file. -/
def services : List Service :=
  f.items.filterMap fun | .service s => some s | _ => none

/-- The messages, enums, extend blocks and options of a file. -/
def members : List Member :=
  f.items.filterMap fun | .member m => some m | _ => none

/-- The name of the package; empty without one. -/
def packageName : Text :=
  (f.packageDecl?.map (·.name.text)).getD []

/-- The language level, if it is declared. -/
def level? : Option Text :=
  f.syntaxDecl?.map (·.version)

end SchemaFile

/-! ### Fixed words and bounds of the language -/

/-- The types that need no declaration. -/
def scalarTypes : List Text :=
  ["double", "float", "int32", "int64", "uint32", "uint64", "sint32", "sint64", "fixed32",
    "fixed64", "sfixed32", "sfixed64", "bool", "string", "bytes"].map Text.ofString

/-- The scalar types a map key may have. -/
def mapKeyTypes : List Text :=
  ["int32", "int64", "uint32", "uint64", "sint32", "sint64", "fixed32", "fixed64", "sfixed32",
    "sfixed64", "bool", "string"].map Text.ofString

/-- The least field number. -/
def minFieldNumber : Int := 1

/-- The greatest field number. -/
def maxFieldNumber : Int := 536870911

/-- The first field number kept for the implementation. -/
def firstInternalNumber : Int := 19000

/-- The last field number kept for the implementation. -/
def lastInternalNumber : Int := 19999

/-- The greatest enum number. -/
def maxEnumNumber : Int := 2147483647

end ProtoAtlas
