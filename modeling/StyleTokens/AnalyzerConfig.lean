import StyleTokens.Field
import StyleTokens.Json.Writer
import StyleTokens.Text.Quoted

/-!
# How duplicates are searched

The search for duplicates is told how far apart two similar names may be, and which directories
are the most foundational.

## Main definitions

* `AnalyzerConfig`: the two settings
* `AnalyzerConfig.checkPriority`: directory names, cleaned and distinct
* `AnalyzerConfig.ofMembers`, `AnalyzerConfig.ofEnv`: settings from JSON and from the environment
* `AnalyzerConfig.json`, `AnalyzerConfig.printed`: settings shown
-/

namespace StyleTokens

/-- An environment: the values of variables. -/
abbrev Environment := List (Text × Text)

/-- The value of a variable, unless it is empty. -/
def Environment.setting? (env : Environment) (name : Text) : Option Text :=
  (Entries.get? name env).filter fun t => !t.isEmpty

/-- How duplicates are searched. -/
structure AnalyzerConfig where
  /-- The greatest distance between two similar names. -/
  threshold : Nat := 3
  /-- The directories, from the most to the least foundational. -/
  priority : List Text :=
    ["core", "layout", "components", "systems", "features", "sidebar", "search"].map String.toList
  deriving DecidableEq, Repr

/-- Why settings are refused. -/
inductive ConfigError where
  /-- A text is no integer. -/
  | notInteger (t : Text) (fault : IntegerFault)
  /-- The fields have problems. -/
  | invalid (problems : List Field.Problem)
  deriving DecidableEq, Repr

/-- The number of problems with a record of the given name. -/
def Field.summary (record : Text) (problems : List Field.Problem) : Text :=
  Text.ofNat problems.length ++ " validation error".toList ++ Text.plural problems.length ++
    " for ".toList ++ record

/-- The words for an integer with too many digits. -/
def digitsMessage (digits : Nat) : Text :=
  "Exceeds the limit (".toList ++ Text.ofNat digitLimit ++
    " digits) for integer string conversion: value has ".toList ++ Text.ofNat digits ++
    " digits; use sys.set_int_max_str_digits() to increase the limit".toList

namespace ConfigError

/-- How much of a text is shown at most. -/
def shownLimit : Nat :=
  200

/-- The words for a text that is no integer. -/
def integerMessage (t : Text) : IntegerFault → Text
  | .malformed => "invalid literal for int() with base 10: ".toList ++ (Text.quoted t).take shownLimit
  | .tooLong digits => digitsMessage digits

/-- The words for a refusal. -/
def message : ConfigError → Text
  | .notInteger t fault => integerMessage t fault
  | .invalid problems => Field.summary "AnalyzerConfig".toList problems

end ConfigError

namespace AnalyzerConfig

/-- A directory name without the blanks and then the slashes around it. -/
def cleanDirectory (t : Text) : Text :=
  Text.trimWhile (· = '/') (Text.trim t)

/-- The cleaned directory names without the empty ones; none may stand twice. -/
def checkPriority (names : List Text) : Checked (List Text) :=
  let cleaned := (names.map cleanDirectory).filter fun t => !t.isEmpty
  if cleaned.Nodup then .ok cleaned
  else .fail (.rule "directory_priority entries must be unique".toList)

/-- A threshold is not negative. -/
def checkThreshold (n : Int) : Checked Nat :=
  if n < 0 then .fail .belowMinimum else .ok n.toNat

/-- The settings of a threshold and of directory names. -/
def check (threshold : Checked Int) (priority : List Text) : Checked AnalyzerConfig := do
  let (threshold, priority) ← Checked.both
    ((threshold >>= checkThreshold).inside "threshold".toList)
    ((checkPriority priority).inside "directory_priority".toList)
  return ⟨threshold, priority⟩

/-- The settings with the given members. -/
def ofMembers (members : List (Text × Json.Value)) : Checked AnalyzerConfig := do
  let default : AnalyzerConfig := {}
  let (threshold, priority) ← Checked.both
    (Field.optional members "threshold".toList (fun v => Field.integer v >>= checkThreshold)
      default.threshold)
    (Field.optional members "directory_priority".toList
      (fun v => Field.texts .notTuple v >>= checkPriority) default.priority)
  return ⟨threshold, priority⟩

/-- The threshold that a variable sets. -/
def thresholdOfEnv (env : Environment) : Except ConfigError Int :=
  match env.setting? "TOKEN_AUDIT_THRESHOLD".toList with
  | none => .ok ({} : AnalyzerConfig).threshold
  | some t => t.integer.mapError (.notInteger t)

/-- The directory names that a variable sets. -/
def priorityOfEnv (env : Environment) : List Text :=
  match env.setting? "TOKEN_AUDIT_PRIORITY".toList with
  | none => ({} : AnalyzerConfig).priority
  | some t => t.splitOn ','

/-- The settings that the environment makes. -/
def ofEnv (env : Environment) : Except ConfigError AnalyzerConfig := do
  let threshold ← thresholdOfEnv env
  (check (.ok threshold) (priorityOfEnv env)).mapError .invalid

/-- The settings with another threshold and other directory names, where given. -/
def override (config : AnalyzerConfig) (threshold : Option (Checked Int))
    (priority : Option (List Text)) : Except ConfigError AnalyzerConfig :=
  if threshold.isNone && priority.isNone then .ok config
  else (check (threshold.getD (.ok config.threshold)) (priority.getD config.priority)).mapError
    .invalid

/-- The settings as a JSON value. -/
def json (config : AnalyzerConfig) : Json.Value :=
  .object
    [("near_duplicates".toList, .object [("threshold".toList, .ofInt config.threshold)]),
      ("canonical".toList, .object
        [("directory_priority".toList, .ofTexts config.priority),
          ("unmatched_rank".toList, .ofInt config.priority.length)])]

/-- The settings as they are shown. -/
def printed (config : AnalyzerConfig) : Text :=
  "=== Duplicate Analyzer Configuration ===\n".toList ++ Json.write 0 config.json ++
    '\n' :: List.replicate 40 '=' ++ ['\n']

end AnalyzerConfig

end StyleTokens
