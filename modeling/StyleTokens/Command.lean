import StyleTokens.Command.Fill
import StyleTokens.Command.Map
import StyleTokens.Command.Prune
import StyleTokens.Command.Rename
import StyleTokens.Command.Report
import StyleTokens.Command.Scan

/-!
# The commands

Six commands make up an audit: scan, report, fill, map, rename and prune.

## Main definitions

* `version`: their version
* `Command`: the commands
* `Command.run`: a command with its arguments, on a file tree
-/

namespace StyleTokens

/-- The version of the commands. -/
def version : Text :=
  "1.0.0".toList

/-- The commands of an audit. -/
inductive Command where
  /-- Read the stylesheets into a baseline. -/
  | scan
  /-- Search the baseline for duplicates. -/
  | report
  /-- Fill the decisions into the report. -/
  | fill
  /-- Collect the renamings noted in the report. -/
  | map
  /-- Rename tokens in the stylesheets. -/
  | rename
  /-- Delete redundant declarations from the stylesheets. -/
  | prune
  deriving DecidableEq, Repr

namespace Command

/-- All commands. -/
def all : List Command :=
  [scan, report, fill, map, rename, prune]

/-- The word for a command. -/
def word : Command → Text
  | .scan => "scan".toList
  | .report => "report".toList
  | .fill => "fill".toList
  | .map => "replace-map".toList
  | .rename => "rename".toList
  | .prune => "prune".toList

/-- The command for a word. -/
def ofWord? (t : Text) : Option Command :=
  all.find? fun command => command.word = t

/-- The name of the program that runs the command. -/
def program (command : Command) : Text :=
  "token-audit-".toList ++ command.word

/-- The line about a wrong command line. -/
def usageLine (command : Command) (e : CommandLine.UsageError) : Text :=
  command.program ++ ": error: ".toList ++ e.message

/-- The exit code of a command whose command line is read with some options. -/
def launch {σ : Type} (command : Command) (options : List (CommandLine.Choice σ)) (default : σ)
    (arguments : List Text) (body : σ → Action Nat) : Action Nat := do
  match CommandLine.parse options default arguments with
  | .ok (.run choices) => body choices
  | .ok .help => return 0
  | .error e =>
    Action.warn (.ofText (command.usageLine e))
    return 2

/-- The exit code of a command. -/
def run (surroundings : Surroundings) (command : Command) (arguments : List Text) : Action Nat :=
  let settings := surroundings.settings
  match command with
  | .scan =>
    command.launch ScanChoices.options (.ofSettings settings) arguments (runScan surroundings)
  | .report =>
    command.launch ReportChoices.options (.ofSettings settings) arguments (runReport surroundings)
  | .fill => command.launch FillChoices.options (.ofSettings settings) arguments runFill
  | .map => command.launch MapChoices.options (.ofSettings settings) arguments runMap
  | .rename =>
    command.launch RenameChoices.options (.ofSettings settings) arguments (runRename surroundings)
  | .prune =>
    command.launch PruneChoices.options (.ofSettings settings) arguments (runPrune surroundings)

end Command

end StyleTokens
