import StyleTokens.AnalyzerConfig
import StyleTokens.Baseline
import StyleTokens.Cluster
import StyleTokens.Group
import StyleTokens.Rank

/-!
# The search for duplicates

For every kind that is searched, the groups of one name that at least two files declare, and the
groups of similar names that are declared by at least two files together.

## Main definitions

* `exactGroups`, `nearGroups`: the groups of one kind
* `KindAnalysis`, `Analysis`: what was found
* `Analysis.ofBaseline`: the duplicates of a baseline
-/

namespace StyleTokens

/-- The undecided group of names and files. -/
def Group.ofFiles (config : AnalyzerConfig) (kind : TokenKind) (matchType : MatchType)
    (names files : List Text) : Group where
  kind := kind
  matchType := matchType
  names := names
  files := files
  canonical := (Rank.canonical? config.priority files).getD []

/-- The groups of one name that at least two files declare. -/
def exactGroups (config : AnalyzerConfig) (kind : TokenKind) (index : Index) : List Group :=
  index.filterMap fun (name, files) =>
    let files := Ascending.ofList files
    if files.length < 2 then none else some (.ofFiles config kind .exact [name] files)

/-- The files that declare one of the names. -/
def Index.filesOf (index : Index) (names : List Text) : List Text :=
  Ascending.ofList (names.flatMap fun name => (index.find? name).getD [])

/-- The clusters of similar names, each with the files that declare one of them. -/
def similarNames (config : AnalyzerConfig) (index : Index) : List (List Text × List Text) :=
  (clusters config.threshold index.keys).map fun names => (names, index.filesOf names)

/-- The groups of similar names that at least two files declare. -/
def nearGroups (config : AnalyzerConfig) (kind : TokenKind) (index : Index) : List Group :=
  (similarNames config index).filterMap fun (names, files) =>
    if files.length < 2 then none else some (.ofFiles config kind .near names files)

/-- The clusters of similar names that a single file declares. -/
def confinedNames (config : AnalyzerConfig) (index : Index) : List (List Text × List Text) :=
  (similarNames config index).filter fun (_, files) => files.length < 2

/-- The groups of one kind. -/
structure KindAnalysis where
  kind : TokenKind
  /-- The groups of one name. -/
  exact : List Group := []
  /-- The groups of similar names. -/
  near : List Group := []
  deriving DecidableEq, Repr

/-- The groups of several kinds, in the order of a report. -/
structure Analysis where
  kinds : List KindAnalysis := []
  deriving DecidableEq, Repr

namespace Analysis

/-- The groups of one kind. -/
def ofIndex (config : AnalyzerConfig) (kind : TokenKind) (index : Index) : KindAnalysis where
  kind := kind
  exact := exactGroups config kind index
  near := nearGroups config kind index

/-- The duplicates of a baseline. -/
def ofBaseline (config : AnalyzerConfig) (baseline : Baseline) : Checked Analysis := do
  let kinds ← TokenKind.grouped.mapM fun kind =>
    return ofIndex config kind (← baseline.index kind)
  return ⟨kinds⟩

/-- All groups, in the order of a report. -/
def groups (analysis : Analysis) : List Group :=
  analysis.kinds.flatMap fun k => k.exact ++ k.near

end Analysis

end StyleTokens
