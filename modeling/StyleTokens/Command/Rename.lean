import StyleTokens.Artifact
import StyleTokens.CommandLine.Parse
import StyleTokens.TreeRename

/-!
# The rename command

The names in the source tree are changed as a rename map says.

## Main definitions

* `RenameChoices`: what can be chosen on the command line
* `runRename`: the command
-/

namespace StyleTokens

/-- What can be chosen for a renaming. -/
structure RenameChoices where
  /-- The path of the rename map. -/
  mapping : Option Text
  root : Option Text
  /-- The directories that are left alone; those of the settings if there are none. -/
  protectedDirectories : List (Option Text) := []
  /-- How many files are worked on at a time. -/
  workers : Option Int
  write : Bool := false
  deriving DecidableEq, Repr

namespace RenameChoices

/-- The choices that the settings make. -/
def ofSettings (settings : Settings) : RenameChoices where
  mapping := some settings.renameMapPath
  root := some settings.sourceRoot
  workers := some settings.workers

/-- The options of the command. -/
def options : List (CommandLine.Choice RenameChoices) :=
  [.text "--mapping" fun t choices => { choices with mapping := t },
    .text "--root" fun t choices => { choices with root := t },
    .text "--protect" fun t choices =>
      { choices with protectedDirectories := choices.protectedDirectories ++ [t] },
    .integer "--workers" fun n choices => { choices with workers := n },
    .flag ["-w", "--write"] fun choices => { choices with write := true }]

end RenameChoices

/-- The lines about the changes of a renaming. -/
def Summary.outcomeLines (summary : Summary) : List Text :=
  if summary.changes.isEmpty then
    ["No matches - codebase already aligned with canonical tokens.".toList]
  else summary.lines

/-- The protected directories in front of the first that is missing. That one is needed for a file
that lies in none of the others. -/
def usableProtection (root : Path) (directories : List (Option Text)) : Action (List Text) := do
  let usable := (directories.takeWhile Option.isSome).filterMap id
  let tree ← Action.tree
  if usable.length < directories.length && (← Action.isDirectory root) then
    if !(tree.unprotected root stylesheetEndings usable).isEmpty then throw .noValue
  return usable

/-- The rename command. -/
def runRename (surroundings : Surroundings) (choices : RenameChoices) : Action Nat :=
  Action.reported "rename" do
    let map ← loadRenameMap (← Action.given choices.mapping)
    if map.size = 0 then
      Action.printText "Mapping file empty or no changes required.".toList
    else
      let root ← Action.given choices.root
      let protectedDirectories ←
        if choices.protectedDirectories.isEmpty then pure surroundings.settings.protectedDirectories
        else usableProtection root choices.protectedDirectories
      let job : RenameJob :=
        { pairs := map.pairs, mayBreak := map.pairs.any fun (_, new) => !Text.isWhole new,
          write := choices.write }
      let summary ← renameTree surroundings job root ⟨[], []⟩ stylesheetEndings protectedDirectories
      summary.outcomeLines.forM Action.printText

end StyleTokens
