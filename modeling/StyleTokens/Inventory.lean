import StyleTokens.Data.Ascending
import StyleTokens.Stylesheet.ParseError
import StyleTokens.Token

/-!
# Inventories

The inventory of a stylesheet lists the names it declares, by kind, in ascending order and each
once.

## Main definitions

* `Statement.token?`: the token that a statement declares
* `Inventory`: the names that a file declares
* `Inventory.extract`: the inventory of a stylesheet
* `Inventory.ofMembers`, `Inventory.ofEntry`, `Inventory.entry`: inventories in JSON
-/

namespace StyleTokens

namespace Statement

/-- The two hyphens in front of a custom property. -/
def propertySigil : Text :=
  "--".toList

/-- The first identifier of the parameters of a mixin or a function. -/
def firstIdentifier? (params : Text) : Option Text :=
  match Text.trim params with
  | [] => none
  | c :: cs =>
    if c.isAlpha || c = '_' || c = '-' then some (c :: Text.nameRun cs) else none

/-- The module that the parameters of a reference name, without quotes. -/
def moduleName? (params : Text) : Option Text :=
  let name := Text.trim (params.filter fun c => c ≠ '"' && c ≠ '\x27')
  if name.isEmpty then none else some name

/-- The at-rules that refer to a module. -/
def moduleRules : List Text :=
  ["use", "forward", "import"].map String.toList

/-- The kind and name of the token that a statement declares. -/
def token? : Statement → Option (TokenKind × Text)
  | .declaration property _ _ =>
    if propertySigil.isPrefixOf property then some (.property, property) else none
  | .atRule name params _ _ =>
    if name = "mixin".toList then (firstIdentifier? params).map fun n => (.block, n)
    else if name = "function".toList then (firstIdentifier? params).map fun n => (.function, n)
    else if moduleRules.contains name then (moduleName? params).map fun n => (.moduleRef, n)
    else none

end Statement

/-- The names that a file declares. -/
structure Inventory where
  path : Text
  properties : List Text
  /-- Reusable blocks. -/
  blocks : List Text
  functions : List Text
  /-- References to modules. -/
  moduleRefs : List Text
  deriving DecidableEq, Repr

namespace Inventory

/-- The inventory with the given names, put in order. -/
def ofLists (path : Text) (properties blocks functions moduleRefs : List Text) : Inventory where
  path := path
  properties := Ascending.ofList properties
  blocks := Ascending.ofList blocks
  functions := Ascending.ofList functions
  moduleRefs := Ascending.ofList moduleRefs

/-- The names of one kind among tokens. -/
def ofKind (kind : TokenKind) (tokens : List (TokenKind × Text)) : List Text :=
  tokens.filterMap fun (k, name) => if k = kind then some name else none

/-- The inventory of the tokens that a file declares. -/
def ofTokens (path : Text) (tokens : List (TokenKind × Text)) : Inventory :=
  ofLists path (ofKind .property tokens) (ofKind .block tokens) (ofKind .function tokens)
    (ofKind .moduleRef tokens)

/-- The inventory of a stylesheet. -/
def extract (source path : Text) : Except ParseError Inventory :=
  match scan source with
  | .ok statements => .ok (ofTokens path (statements.filterMap Statement.token?))
  | .error e => .error (.ofScan (some path) e)

/-- The names of one kind. -/
def names (inventory : Inventory) : TokenKind → List Text
  | .property => inventory.properties
  | .block => inventory.blocks
  | .function => inventory.functions
  | .moduleRef => inventory.moduleRefs

/-- The tokens of one kind. -/
def tokens (inventory : Inventory) (kind : TokenKind) : Checked (List Token) :=
  (inventory.names kind).mapM (Token.check kind inventory.path)

/-- The tokens of all kinds. -/
def allTokens (inventory : Inventory) : Checked (List Token) := do
  return (← TokenKind.all.mapM inventory.tokens).flatten

/-- The number of names. -/
def size (inventory : Inventory) : Nat :=
  (TokenKind.all.flatMap inventory.names).length

/-- The member of a baseline file. -/
def entry (inventory : Inventory) : Json.Value :=
  .object (TokenKind.all.map fun kind => (kind.key, .ofTexts (inventory.names kind)))

/-- A list of names among members. -/
def listOfMembers (members : List (Text × Json.Value)) (key : Text) : Checked (List Text) :=
  Field.optional members key (Field.texts .notList) []

/-- The inventory whose path and references are read already, with the other lists from
members. -/
def withMembers (path : Checked Text) (refs : Checked (List Text))
    (members : List (Text × Json.Value)) : Checked Inventory := do
  let (path, properties, blocks, functions, moduleRefs) ← Checked.both path
    (Checked.both (listOfMembers members "properties".toList)
      (Checked.both (listOfMembers members "blocks".toList)
        (Checked.both (listOfMembers members "functions".toList) refs)))
  return ofLists path properties blocks functions moduleRefs

/-- The references among members, under either of two names. -/
def refsOfMembers (members : List (Text × Json.Value)) : Checked (List Text) :=
  match Entries.get? "moduleRefs".toList members <|> Entries.get? "module_refs".toList members with
  | some v => (Field.texts .notList v).inside "moduleRefs".toList
  | none => .ok []

/-- The inventory with the given members. -/
def ofMembers (members : List (Text × Json.Value)) : Checked Inventory :=
  withMembers (Field.required members "path".toList Field.text) (refsOfMembers members) members

/-- The inventory of a member of a baseline file. -/
def ofEntry (path : Text) (members : List (Text × Json.Value)) : Checked Inventory :=
  withMembers (.ok path) (listOfMembers members "moduleRefs".toList) members

end Inventory

end StyleTokens
