import StyleTokens.Artifact
import StyleTokens.CommandLine.Parse

/-!
# The report command

The baseline is searched for duplicates, and the duplicate report is written, unless it lists a
path that no file can hold.

## Main definitions

* `ReportChoices`: what can be chosen on the command line
* `analyze`: the duplicates of a baseline, with the details of the search
* `runReport`: the command
-/

namespace StyleTokens

/-- What can be chosen for a report. -/
structure ReportChoices where
  baseline : Option Text
  out : Option Text
  /-- The greatest distance between two similar names, if the option is there. -/
  threshold : Option (Option Int) := none
  /-- The directories from the most to the least foundational, with commas between them. -/
  priority : Text := []
  deriving DecidableEq, Repr

namespace ReportChoices

/-- The choices that the settings make. -/
def ofSettings (settings : Settings) : ReportChoices where
  baseline := some settings.baselinePath
  out := some settings.reportPath

/-- The options of the command. -/
def options : List (CommandLine.Choice ReportChoices) :=
  [.text "--baseline" fun t choices => { choices with baseline := t },
    .text "--out" fun t choices => { choices with out := t },
    .integer "--threshold" fun n choices => { choices with threshold := some n },
    .text "--priority" fun t choices => { choices with priority := t.getD [] }]

/-- The threshold that was chosen. -/
def chosenThreshold (choices : ReportChoices) : Option (Checked Int) :=
  choices.threshold.map fun
    | some n => .ok n
    | none => .fail .notInteger

/-- How duplicates are searched: as the environment says, and above it the choices. -/
def config (choices : ReportChoices) (env : Environment) : Except ConfigError AnalyzerConfig := do
  (← AnalyzerConfig.ofEnv env).override choices.chosenThreshold
    (if choices.priority.isEmpty then none else some (choices.priority.splitOn ','))

end ReportChoices

/-- The line about similar names that a single file declares. -/
def confinedLine (names files : List Text) : Text :=
  "DEBUG: near-duplicate cluster confined to ".toList ++ Text.quotedList files ++ ": ".toList ++
    Text.quotedList names

/-- The line about the groups of a kind. -/
def kindLine (analysis : KindAnalysis) (index : Index) : Text :=
  "DEBUG: ".toList ++ analysis.kind.key ++ ": ".toList ++ Text.ofNat index.length ++
    " names, ".toList ++ Text.ofNat analysis.exact.length ++ " exact, ".toList ++
    Text.ofNat analysis.near.length ++ " near".toList

/-- The groups of a kind. -/
def analyzeKind (surroundings : Surroundings) (config : AnalyzerConfig) (baseline : Baseline)
    (kind : TokenKind) : Action KindAnalysis := do
  Action.ofExcept (.invalid "Token".toList) (baseline.checkNames kind)
  let index ← Action.ofExcept (.invalid "Token".toList) (baseline.index kind)
  let analysis := Analysis.ofIndex config kind index
  if surroundings.settings.debug then
    (confinedNames config index).forM fun (names, files) =>
      Action.warn (.ofText (confinedLine names files))
    Action.warn (.ofText (kindLine analysis index))
  return analysis

/-- The duplicates of a baseline. -/
def analyze (surroundings : Surroundings) (config : AnalyzerConfig) (baseline : Baseline) :
    Action Analysis :=
  return ⟨← TokenKind.grouped.mapM (analyzeKind surroundings config baseline)⟩

/-- The line that counts the groups of a kind. -/
def countLine (analysis : KindAnalysis) : Text :=
  "  ".toList ++ analysis.kind.key ++ ": ".toList ++ Text.ofNat analysis.exact.length ++
    " exact, ".toList ++ Text.ofNat analysis.near.length ++ " near-duplicate groups".toList

/-- The report command. A report with a path that holds an unpaired surrogate, or one of the
private-use characters that stand for them, cannot be stored. -/
def runReport (surroundings : Surroundings) (choices : ReportChoices) : Action Nat := do
  match choices.config surroundings.env with
  | .error e =>
    Action.warn (.ofText ("Error: invalid analyzer configuration: ".toList ++ e.message))
    return 1
  | .ok config =>
    if surroundings.settings.debug then
      Action.printText config.printed.dropLast
    Action.reported "analysis" do
      let baseline ← loadBaseline (← Action.given choices.baseline)
      let analysis ← analyze surroundings config baseline
      let out ← Action.given choices.out
      let report := Report.render analysis
      Action.storeIf report.isWhole out report
      analysis.kinds.forM fun kind => Action.printText (countLine kind)
      Action.printText ("Duplicate report written to ".toList ++ (← Action.shown out))

end StyleTokens
