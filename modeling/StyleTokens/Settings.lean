import StyleTokens.AnalyzerConfig
import StyleTokens.Path
import StyleTokens.Text.Lower

/-!
# Settings

What the commands do unless told otherwise: where the stylesheets are and which files they are,
where the audit files go, in which directories nothing is renamed, and whether to report details.

## Main definitions

* `stylesheetEndings`: the endings of the names of stylesheets
* `Settings`: the settings
* `Settings.ofEnv`: the settings that the environment makes
* `Settings.auditPath`: the path of an audit file
* `Settings.json`, `Settings.printed`: settings shown
-/

namespace StyleTokens

/-- The endings of the names of stylesheets. -/
def stylesheetEndings : List Text :=
  [".scss".toList, ".css".toList]

/-- What the commands do unless told otherwise. -/
structure Settings where
  sourceRoot : Text := "src".toList
  /-- The endings of the names of the files that are scanned. -/
  extensions : List Text := stylesheetEndings
  /-- The directory of the audit files. -/
  auditDirectory : Text := "build/css-audit".toList
  /-- The directories of the source root in which nothing is renamed. -/
  protectedDirectories : List Text := ["core".toList]
  /-- How many files are worked on at a time; no result depends on it. -/
  workers : Int
  debug : Bool := false
  deriving DecidableEq, Repr

namespace Settings

/-- The comma-separated parts of a variable, or a default for one that is not set or blank. -/
def listOfEnv (env : Environment) (name : Text) (default : List Text) : List Text :=
  match Entries.get? name env with
  | none => default
  | some t => if t.allBlank then default else t.commaParts

/-- The words that ask for details. -/
def debugWords : List Text :=
  ["1", "true", "yes"].map String.toList

/-- The number of workers that a variable sets; `processors` is the default. -/
def workersOfEnv (processors : Nat) (env : Environment) : Except ConfigError Int :=
  match Entries.get? "TOKEN_AUDIT_WORKERS".toList env with
  | none => .ok processors
  | some t => t.integer.mapError (.notInteger t)

/-- The settings that the environment makes. -/
def ofEnv (processors : Nat) (env : Environment) : Except ConfigError Settings := do
  let workers ← workersOfEnv processors env
  let default : Settings := { workers := workers }
  return {
    sourceRoot := (Entries.get? "TOKEN_AUDIT_ROOT".toList env).getD default.sourceRoot
    extensions := listOfEnv env "TOKEN_AUDIT_EXTENSIONS".toList default.extensions
    auditDirectory := (Entries.get? "TOKEN_AUDIT_DIR".toList env).getD default.auditDirectory
    protectedDirectories :=
      listOfEnv env "TOKEN_AUDIT_PROTECTED".toList default.protectedDirectories
    workers := workers
    debug := debugWords.contains
      (Text.lower ((Entries.get? "TOKEN_AUDIT_DEBUG".toList env).getD [])) }

/-- The path of an audit file. -/
def auditPath (settings : Settings) (name : String) : Text :=
  ((Path.parse settings.auditDirectory).child name.toList).text

/-- The path of the baseline. -/
def baselinePath (settings : Settings) : Text :=
  settings.auditPath "baseline.json"

/-- The path of the duplicate report. -/
def reportPath (settings : Settings) : Text :=
  settings.auditPath "duplicate-report.md"

/-- The path of the rename map. -/
def renameMapPath (settings : Settings) : Text :=
  settings.auditPath "replace-map.json"

/-- The path of the alias plan. -/
def aliasPlanPath (settings : Settings) : Text :=
  settings.auditPath "short-term-aliases.json"

/-- The settings as a JSON value. -/
def json (settings : Settings) : Json.Value :=
  .object
    [("source_root".toList, .text settings.sourceRoot),
      ("extensions".toList, .ofTexts settings.extensions),
      ("audit_dir".toList, .text settings.auditDirectory),
      ("protected_dirs".toList, .ofTexts settings.protectedDirectories),
      ("max_workers".toList, .ofInt settings.workers),
      ("debug".toList, .bool settings.debug)]

/-- The settings as they are shown. -/
def printed (settings : Settings) : Text :=
  "=== Token Audit Configuration ===\n".toList ++ Json.write 0 settings.json ++
    '\n' :: List.replicate 33 '=' ++ ['\n']

end Settings

end StyleTokens
