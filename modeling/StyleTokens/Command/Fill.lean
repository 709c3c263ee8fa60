import StyleTokens.Artifact
import StyleTokens.CommandLine.Parse
import StyleTokens.Report.Fill

/-!
# The fill command

The placeholders of a report are filled with decisions, in place.

## Main definitions

* `FillChoices`: what can be chosen on the command line
* `runFill`: the command
-/

namespace StyleTokens

/-- What can be chosen for filling a report. -/
structure FillChoices where
  /-- The decision for all groups. -/
  mode : Option Disposition := some .merge
  report : Option Text
  /-- The decisions for single names, in the order in which they were given. -/
  overrides : List (Option (Text × Disposition)) := []
  deriving DecidableEq, Repr

namespace FillChoices

/-- The choices that the settings make. -/
def ofSettings (settings : Settings) : FillChoices where
  report := some settings.reportPath

/-- The option for the decision for all groups. -/
def modeOption : CommandLine.Choice FillChoices :=
  .parsed "--mode"
    (fun t =>
      match Disposition.choices.find? fun d => d.word = t with
      | some d => .ok d
      | none => .error (.notChoice t (Disposition.choices.map Disposition.word)))
    fun d choices => { choices with mode := d }

/-- The option for the decision for a single name. -/
def overrideOption : CommandLine.Choice FillChoices :=
  .parsed "--set" (fun t => (Override.parse t).mapError fun e => .rule e.message)
    fun entry choices => { choices with overrides := choices.overrides ++ [entry] }

/-- The options of the command. -/
def options : List (CommandLine.Choice FillChoices) :=
  [modeOption, .text "--report" fun t choices => { choices with report := t }, overrideOption]

end FillChoices

/-- The line about the placeholders filled. -/
def filledLine (mode : Disposition) (count : Nat) (shown : Text) : Text :=
  "Updated ".toList ++ Text.ofNat count ++ " Disposition line".toList ++ Text.plural count ++
    " to \"".toList ++ mode.word ++ "\" in ".toList ++ shown

/-- The decisions for single names, all of which need a value. -/
def usableOverrides (overrides : List (Option (Text × Disposition))) :
    Action (Entries Text Disposition) :=
  match overrides.findIdx? Option.isNone with
  | some position => throw (.noOverride position)
  | none => return Entries.ofList (overrides.filterMap id)

/-- The fill command. -/
def runFill (choices : FillChoices) : Action Nat := do
  let path ← Action.given choices.report
  match choices.mode with
  | none => throw .noMode
  | some mode =>
    Action.reportedInput do
      let t ← readReport path
      let (filled, count) := Report.fill mode (← usableOverrides choices.overrides) t
      if count ≠ 0 then
        Action.store path filled
      Action.printText (filledLine mode count (← Action.shown path))

end StyleTokens
