import StyleTokens.Analysis

/-!
# The layout of a duplicate report

A report is a Markdown document. Every kind has a section with its groups of one name and then
its groups of similar names. A group is a header with its names, the list of its files, the
canonical file, and the disposition; a group without a decision carries a placeholder.

## Main definitions

* `Report.groupLines`: the lines of a group below its header
* `Report.kindLines`: the lines of the section of a kind
* `Report.render`: the report of an analysis
-/

namespace StyleTokens.Report

/-- The title of a report. -/
def title : Text :=
  "# Duplicate & Near-Duplicate Token Report".toList

/-- What stands in place of a decision. -/
def placeholder : Text :=
  "_merge | alias | ignore_".toList

/-- The line of a section without groups of one name. -/
def noExact : Text :=
  "_No exact duplicates found._".toList

/-- The line of a section without groups of similar names. -/
def noNear : Text :=
  "_No near-duplicate names found._".toList

/-- The words for the decision about a group. -/
def dispositionWords (d : Disposition) : Text :=
  if d = .unset then placeholder else d.word

/-- The lines of a group below its header. -/
def groupLines (group : Group) : List Text :=
  "Defined in:".toList :: group.files.map ("- ".toList ++ ·) ++
    ["Preferred source (auto-ranked): ".toList ++ group.canonical,
      "Disposition: ".toList ++ dispositionWords group.disposition, []]

/-- The lines of a group of one name. -/
def exactLines (group : Group) : List Text :=
  ("### Token: ".toList ++ group.representative) :: groupLines group

/-- The lines of a group of similar names. -/
def nearLines (group : Group) : List Text :=
  ("#### Variants: ".toList ++ Text.joined ", ".toList group.names) :: groupLines group

/-- The lines of the groups, or a line that there are none. -/
def groupsOr (none : Text) (lines : Group → List Text) (groups : List Group) : List Text :=
  if groups.isEmpty then [none, []] else groups.flatMap lines

/-- The lines of the section of a kind. -/
def kindLines (analysis : KindAnalysis) : List Text :=
  ["## ".toList ++ analysis.kind.key ++ " Duplicates".toList, []] ++
    groupsOr noExact exactLines analysis.exact ++
    ["### Near-Duplicate ".toList ++ analysis.kind.key, []] ++
    groupsOr noNear nearLines analysis.near

/-- The lines of the report of an analysis. -/
def lines (analysis : Analysis) : List Text :=
  [title, []] ++ analysis.kinds.flatMap kindLines

/-- The report of an analysis, ended by one line break. -/
def render (analysis : Analysis) : Text :=
  Text.dropEndWhile (· = '\n') (Text.joined ['\n'] (lines analysis)) ++ ['\n']

end StyleTokens.Report
