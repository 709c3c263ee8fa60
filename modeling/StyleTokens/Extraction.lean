import StyleTokens.Baseline
import StyleTokens.Text.Lines
import StyleTokens.Timing
import StyleTokens.World

/-!
# Extracting a baseline

Every stylesheet under a directory is read. Those that can be read make up the baseline; the
others are left out, and listed with the reason.

## Main definitions

* `extractFile`: the inventory of a file
* `Extraction`, `Extraction.ofResults`: the baseline and the files left out
* `extractTree`: the baseline of a directory
-/

namespace StyleTokens

/-- The inventory of the file at a path, whose paths are shown from a base. -/
def extractFile (tree : FileTree) (base path : Path) : Except ParseError Inventory :=
  let shown := path.relative tree.working base
  match tree.readText path with
  | .ok t => Inventory.extract t.unifyBreaks shown
  | .error refusal =>
    .error { reason := .because "unreadable: ".toList refusal.words, path := some shown }

/-- What was found in the files of a directory. -/
structure Extraction where
  /-- The inventories of the files that can be read. -/
  baseline : Baseline
  /-- Why the other files cannot be read, by path. -/
  failed : Table Text Message
  deriving DecidableEq, Repr

namespace Extraction

/-- The inventories among results. -/
def inventories (results : List (Except ParseError Inventory)) : List Inventory :=
  results.filterMap Except.toOption

/-- The errors among results. -/
def errors (results : List (Except ParseError Inventory)) : List ParseError :=
  results.filterMap fun
    | .ok _ => none
    | .error e => some e

/-- The extraction of the results for single files, in any order. -/
def ofResults (results : List (Except ParseError Inventory)) : Extraction where
  baseline := .ofInventories (inventories results)
  failed := Table.ofList ((errors results).map fun e => (e.path.getD [], e.reason))

/-- The number of files looked at. -/
def scanned (extraction : Extraction) : Nat :=
  extraction.baseline.size + extraction.failed.length

/-- The warning about a file left out. -/
def warning (e : ParseError) : Message :=
  e.message.after "Warning: Failed to parse ".toList

/-- The line about a file that was read. -/
def parsedLine (took : Text → Float) (inventory : Inventory) : Message where
  head := "DEBUG: parsed ".toList ++ inventory.path ++ ": ".toList ++ Text.ofNat inventory.size ++
    " tokens (".toList
  circumstance := some (.duration (Timing.duration (took inventory.path) ++ "ms".toList))
  close := [')']

/-- The timing of the files that were read. -/
def timing (took : Text → Float) (inventories : List Inventory) : Timing :=
  inventories.foldl (fun timing i => timing.record (took i.path) i.path) { stage := "parse".toList }

end Extraction

/-- The extraction of the stylesheets under a directory, and its timing. -/
def extractTree (surroundings : Surroundings) (root base : Path) (endings : List Text) :
    Action (Extraction × Timing) := do
  let tree ← Action.tree
  if !(← Action.isDirectory root) then
    throw (.input (.ofText ("Source root not found: ".toList ++ root.text)))
  let results := (tree.walk root endings).map (extractFile tree base)
  let inventories := Extraction.inventories results
  (Extraction.errors results).forM fun e => Action.warn (Extraction.warning e)
  if surroundings.settings.debug then
    inventories.forM fun i => Action.warn (Extraction.parsedLine surroundings.took i)
  return (.ofResults results, Extraction.timing surroundings.took inventories)

end StyleTokens
