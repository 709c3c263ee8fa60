import StyleTokens.Csv
import StyleTokens.Inventory
import StyleTokens.Json.Writer
import StyleTokens.Text.Quoted

/-!
# Baselines

A baseline holds the inventories of a source tree by path. It is kept as a JSON document, and
shown as a CSV document that lists the declaring files of every name.

## Main definitions

* `Baseline`: inventories by path
* `Baseline.ofInventories`, `Baseline.ofMembers`: baselines from inventories and from JSON
* `Baseline.index`: the declaring files by name, for one kind
* `Baseline.json`, `Baseline.csv`: the two documents
-/

namespace StyleTokens

/-- The declaring files by name, both in ascending order. -/
abbrev Index := Table Text (List Text)

/-- The inventories of a source tree by path. -/
structure Baseline where
  /-- The inventories, each under its path. -/
  files : Table Text Inventory
  deriving DecidableEq, Repr

/-- Why JSON members are no baseline. -/
inductive BaselineError where
  /-- An entry has problems. -/
  | invalid (problems : List Field.Problem)
  /-- An entry is no object. -/
  | notObject
  deriving DecidableEq, Repr

namespace Baseline

/-- The baseline of a list of inventories, in any order. -/
def ofInventories (inventories : List Inventory) : Baseline where
  files := Table.ofList (inventories.map fun i => (i.path, i))

/-- The baseline of inventories under keys, which must be their paths. -/
def ofKeyed (entries : List (Text × Inventory)) : Checked Baseline :=
  match entries.find? fun (key, inventory) => key ≠ inventory.path with
  | some (key, inventory) =>
    .error [⟨["files".toList], .rule ("Inventory key ".toList ++ Text.quoted key ++
      " does not match its path ".toList ++ Text.quoted inventory.path)⟩]
  | none => .ok (ofInventories (entries.map Prod.snd))

/-- The inventory of an entry of a baseline file. -/
def inventoryOfEntry (path : Text) : Json.Value → Except BaselineError Inventory
  | .object members => (Inventory.ofEntry path members).mapError .invalid
  | _ => .error .notObject

/-- The baseline of the members of a baseline file. -/
def ofMembers (members : List (Text × Json.Value)) : Except BaselineError Baseline := do
  return ofInventories (← members.mapM fun (path, entry) => inventoryOfEntry path entry)

/-- The number of files. -/
def size (baseline : Baseline) : Nat :=
  baseline.files.length

/-- The index with the names of a file added, whose path is above those already there. -/
def indexFile (kind : TokenKind) (index : Index) (inventory : Inventory) : Checked Index := do
  let tokens ← inventory.tokens kind
  return tokens.foldl
    (fun index token => index.update token.name fun files => files.getD [] ++ [token.file]) index

/-- The declaring files of every name of one kind. -/
def index (baseline : Baseline) (kind : TokenKind) : Checked Index :=
  (baseline.files.map Prod.snd).foldlM (indexFile kind) []

/-- The index with the files of another one added. -/
def mergeIndex (index other : Index) : Index :=
  other.foldl
    (fun index (name, files) =>
      index.update name fun old => Ascending.ofList (old.getD [] ++ files)) index

/-- The declaring files of every name that is searched for duplicates. -/
def groupedIndex (baseline : Baseline) : Checked Index :=
  TokenKind.grouped.foldlM (fun index kind => return mergeIndex index (← baseline.index kind)) []

/-- The JSON document. -/
def json (baseline : Baseline) : Text :=
  Json.document (.object (baseline.files.map fun (path, inventory) => (path, inventory.entry)))

/-- The CSV document: a header, and for every name its files with bars between them. -/
def csv (baseline : Baseline) : Checked Text := do
  let rows := (← baseline.groupedIndex).map fun (name, files) =>
    Csv.record [name, Text.joined ['|'] files]
  return Csv.record ["token".toList, "files".toList] ++ rows.flatten

end Baseline

end StyleTokens
