/-
# Schema files

```text
file    = { syntax | edition | package | import | option | message | enum | service | extend | ";" }
syntax  = "syntax" "=" string ";"        edition = "edition" "=" string ";"
package = "package" name ";"             import  = "import" [ "public" | "weak" ] string ";"
```

A statement that fails is recorded and passed over through the next `;` or
closing brace, so every text gives a file.
-/

import ProtoAtlas.Grammar.Message

namespace ProtoAtlas
namespace Rule

/-- The declaration of the language level. -/
def syntaxLevel : Rule SyntaxDecl := do
  let first ← keyword "syntax"
  let comment ← claimComment first
  let _ ← expect .equals "'=' after syntax"
  let version ← expect .string "syntax string"
  let _ ← expect .semicolon "';' after syntax declaration"
  return ⟨Literal.stringValue version.text, ← close first comment none⟩

/-- The declaration of an edition. -/
def edition : Rule EditionDecl := do
  let first ← keyword "edition"
  let comment ← claimComment first
  let _ ← expect .equals "'=' after edition"
  let edition ← expect .string "edition string"
  let _ ← expect .semicolon "';' after edition declaration"
  return ⟨Literal.stringValue edition.text, ← close first comment none⟩

/-- The declaration of a package. -/
def package : Rule PackageDecl := do
  let first ← keyword "package"
  let comment ← claimComment first
  let name ← qualifiedName "package name"
  let _ ← expect .semicolon "';' after package declaration"
  return ⟨name, ← close first comment none⟩

/-- The modifier of an import. -/
def importModifier : Rule (Option ImportModifier) := do
  if ← checkWord ImportModifier.reexport.word then
    let _ ← advance
    return some .reexport
  else if ← checkWord ImportModifier.weak.word then
    let _ ← advance
    return some .weak
  else return none

/-- An import. -/
def importing : Rule ImportDecl := do
  let first ← keyword "import"
  let comment ← claimComment first
  let modifier ← importModifier
  let path ← expect .string "import path"
  let _ ← expect .semicolon "';' after import"
  return ⟨⟨Literal.stringValue path.text, path.span⟩, modifier, ← close first comment none⟩

/-- Whether a single declaration is among the items. -/
def declares (what : SingleDeclaration) (items : List Item) : Bool :=
  items.any fun
    | .syntaxLevel _ => what = .syntaxLevel
    | .edition _ => what = .edition
    | .package _ => what = .package
    | _ => false

/-- A declaration that may stand once, given the items before it. -/
def once (what : SingleDeclaration) (earlier : List Item) (rule : Rule Item) :
    Rule (Option Item) := do
  if declares what earlier then reject (.duplicate what) else return some (← rule)

/-- A member as an item. -/
def memberItem (rule : Rule (Option Member)) : Rule (Option Item) := do
  return (← rule).map .member

/-- A statement at the top of a file that starts with a word, given the items
before it. -/
def namedItem (earlier : List Item) : Rule (Option Item) := do
  let token ← current
  if token.isWord "syntax" then
    once .syntaxLevel earlier do return .syntaxLevel (← syntaxLevel)
  else if token.isWord "edition" then
    once .edition earlier do return .edition (← edition)
  else if token.isWord "package" then
    once .package earlier do return .package (← package)
  else if token.isWord "import" then return some (.importing (← importing))
  else if token.isWord "option" then memberItem optionMember
  else if token.isWord "message" then memberItem (nestedMessage memberBody)
  else if token.isWord "enum" then return some (.member (.enum (← enum)))
  else if token.isWord "service" then return some (.service (← service))
  else if token.isWord "extend" then memberItem (extendMember memberBody)
  else reject (.unexpected token.text)

/-- A statement at the top of a file, given the items before it. -/
def item (earlier : List Item) : Rule (Option Item) := do
  let token ← current
  match token.kind with
  | .semicolon =>
    let _ ← advance
    return none
  | .identifier => namedItem earlier
  | _ => reject (.unexpected token.text)

/-- One statement at the top of a file, or the recovery from a faulty one. -/
def itemStep (earlier : List Item) : Rule (Option Item) :=
  recovering (item earlier) fun fault => do
    record fault
    modify Reader.skipStatement
    return none

/-- The statements of a file, at most `fuel` of them; `earlier` holds the items
before, the latest first. -/
def itemsUpTo : Nat → List Item → Rule (List Item)
  | 0, earlier => return earlier.reverse
  | fuel + 1, earlier => do
    if (← get).atEnd then return earlier.reverse
    else itemsUpTo fuel ((← itemStep earlier).toList ++ earlier)

/-- The statements of a file.  Each takes a token, so the tokens bound their
number. -/
def items : Rule (List Item) := do
  itemsUpTo (← get).rest.length []

end Rule

namespace SchemaFile

/-- The schema file that a text spells. -/
def parse (uri : Text) (source : Text) : SchemaFile :=
  let reader := Reader.ofStream (TokenStream.ofText source)
  match Rule.items.run reader with
  | .ok items r => ⟨uri, Span.ofText source, items, r.faults.reverse⟩
  | .error _ r => ⟨uri, Span.ofText source, [], r.faults.reverse⟩

end SchemaFile
end ProtoAtlas
