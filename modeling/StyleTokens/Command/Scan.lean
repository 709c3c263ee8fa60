import StyleTokens.CommandLine.Parse
import StyleTokens.Extraction

/-!
# The scan command

The stylesheets of the source tree are read, and the baseline is written as a JSON and as a CSV
document.

## Main definitions

* `ScanChoices`: what can be chosen on the command line
* `writeBaseline`: the two documents
* `runScan`: the command
-/

namespace StyleTokens

/-- What can be chosen for a scan. -/
structure ScanChoices where
  root : Option Text
  /-- The directory of the two documents. -/
  outDirectory : Option Text
  /-- The endings of the names of stylesheets; those of the settings if there are none. -/
  extensions : List (Option Text) := []
  /-- How many files are worked on at a time. -/
  workers : Option Int
  deriving DecidableEq, Repr

namespace ScanChoices

/-- The choices that the settings make. -/
def ofSettings (settings : Settings) : ScanChoices where
  root := some settings.sourceRoot
  outDirectory := some settings.auditDirectory
  workers := some settings.workers

/-- The options of the command. -/
def options : List (CommandLine.Choice ScanChoices) :=
  [.text "--root" fun t choices => { choices with root := t },
    .text "--out-dir" fun t choices => { choices with outDirectory := t },
    .text "--ext" fun t choices => { choices with extensions := choices.extensions ++ [t] },
    .integer "--workers" fun n choices => { choices with workers := n }]

end ScanChoices

/-- The two documents of a baseline, in a directory that is made if need be. -/
def writeBaseline (baseline : Baseline) (directory : Path) : Action Unit := do
  Action.makeDirectories directory
  Action.store (directory.child "baseline.json".toList) baseline.json
  let csv ← Action.ofExcept (.invalid "Token".toList) baseline.csv
  Action.store (directory.child "baseline.csv".toList) csv

/-- The lines about the files left out. -/
def Extraction.skippedLines (extraction : Extraction) : List Message :=
  if extraction.failed.isEmpty then []
  else .ofText ("Skipped ".toList ++ Text.ofNat extraction.failed.length ++
      " file(s) that failed to parse:".toList) ::
    extraction.failed.map fun (path, reason) =>
      reason.after ("  ".toList ++ path ++ ": ".toList)

/-- The endings in front of the first that is missing. That one is needed for a file whose name
has none of the others. -/
def usableEndings (root : Path) (endings : List (Option Text)) : Action (List Text) := do
  let usable := (endings.takeWhile Option.isSome).filterMap id
  let tree ← Action.tree
  if usable.length < endings.length && (← Action.isDirectory root) then
    if (tree.walk root usable).length < (tree.walk root [[]]).length then throw .noValue
  return usable

/-- The scan command. -/
def runScan (surroundings : Surroundings) (choices : ScanChoices) : Action Nat := do
  let settings := surroundings.settings
  if settings.debug then
    Action.printText settings.printed.dropLast
  Action.reported "extraction" do
    let root ← Action.given choices.root
    let endings ← if choices.extensions.isEmpty then pure settings.extensions
      else usableEndings root choices.extensions
    let (extraction, timing) ← extractTree surroundings root ⟨[], []⟩ endings
    let directory ← Action.given choices.outDirectory
    writeBaseline extraction.baseline directory
    if settings.debug then
      Action.warn timing.report
    Action.printText ("CSS audit baseline generated for ".toList ++
      Text.ofNat extraction.baseline.size ++ " files -> ".toList ++ (← Action.shown directory))
    Action.printText ("Scanned ".toList ++ Text.ofNat extraction.scanned ++ " stylesheet(s)".toList)
    extraction.skippedLines.forM Action.print

end StyleTokens
