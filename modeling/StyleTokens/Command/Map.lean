import StyleTokens.Artifact
import StyleTokens.CommandLine.Parse
import StyleTokens.RenameNotes

/-!
# The map command

The rename map of the notes in a report is written.

## Main definitions

* `MapChoices`: what can be chosen on the command line
* `runMap`: the command
-/

namespace StyleTokens

/-- What can be chosen for a rename map. -/
structure MapChoices where
  report : Option Text
  /-- The path of the rename map. -/
  out : Option Text
  deriving DecidableEq, Repr

namespace MapChoices

/-- The choices that the settings make. -/
def ofSettings (settings : Settings) : MapChoices where
  report := some settings.reportPath
  out := some settings.renameMapPath

/-- The options of the command. -/
def options : List (CommandLine.Choice MapChoices) :=
  [.text "--report" fun t choices => { choices with report := t },
    .text "--out" fun t choices => { choices with out := t }]

end MapChoices

/-- The map command. -/
def runMap (choices : MapChoices) : Action Nat :=
  Action.reportedInput do
    let map := RenameNotes.map (← readReport (← Action.given choices.report))
    let out ← Action.given choices.out
    Action.store out map.json
    if map.size = 0 then
      Action.warn (.ofText
        "Warning: no alias pairs found in report; wrote an empty mapping".toList)
    Action.printText ("Wrote ".toList ++ Text.ofNat map.size ++ " mappings to ".toList ++
      (← Action.shown out))

end StyleTokens
