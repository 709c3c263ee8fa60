import StyleTokens.Artifact
import StyleTokens.CommandLine.Parse
import StyleTokens.TreePrune

/-!
# The prune command

The redundant declarations that a report marks are deleted, and the alias plan is written.

## Main definitions

* `PruneChoices`: what can be chosen on the command line
* `runPrune`: the command
-/

namespace StyleTokens

/-- What can be chosen for pruning. -/
structure PruneChoices where
  report : Option Text
  /-- The path of the alias plan. -/
  plan : Option Text
  /-- The directory that the paths of the report are seen from. -/
  base : Option Text := some ['.']
  write : Bool := false
  deriving DecidableEq, Repr

namespace PruneChoices

/-- The choices that the settings make. -/
def ofSettings (settings : Settings) : PruneChoices where
  report := some settings.reportPath
  plan := some settings.aliasPlanPath

/-- The options of the command. -/
def options : List (CommandLine.Choice PruneChoices) :=
  [.text "--report" fun t choices => { choices with report := t },
    .text "--plan" fun t choices => { choices with plan := t },
    .text "--base" fun t choices => { choices with base := t },
    .flag ["-w", "--write"] fun choices => { choices with write := true }]

end PruneChoices

/-- The line about the deletions in a file. -/
def prunedLine (written : Bool) (change : FileChange) : Text :=
  "  ".toList ++ change.path ++ " - ".toList ++
    (if written then "removed ".toList else "would remove ".toList) ++
    Text.ofNat change.replacements ++ " duplicated token".toList ++ Text.plural change.replacements

/-- The line about all deletions, if there are any. -/
def totalLine (plan : AliasPlan) : List Text :=
  if plan.size = 0 then []
  else [Text.ofNat plan.size ++ " duplicated declaration(s) across ".toList ++
    Text.ofNat plan.removed.length ++ " file(s)".toList]

/-- The last line of a run. -/
def closingLine (summary : Summary) : Text :=
  if summary.written then
    "Pruned ".toList ++ Text.ofNat summary.changes.length ++ " file".toList ++
      Text.plural summary.changes.length ++ ['.']
  else "Dry run complete - add --write to modify files.".toList

/-- The prune command. -/
def runPrune (surroundings : Surroundings) (choices : PruneChoices) : Action Nat :=
  Action.reported "prune" do
    let groups ← loadReport (← Action.given choices.report)
    if !groups.any Group.isActionable then
      Action.printText "No merge-disposition duplicates found. Nothing to prune.".toList
    let (plan, summary) ← pruneTree surroundings (← Action.given choices.base) choices.write groups
    let planPath ← Action.given choices.plan
    Action.store planPath plan.json
    (summary.changes.map (prunedLine summary.written) ++ totalLine plan).forM Action.printText
    Action.printText ("Alias plan written -> ".toList ++ (← Action.shown planPath))
    Action.printText (closingLine summary)

end StyleTokens
