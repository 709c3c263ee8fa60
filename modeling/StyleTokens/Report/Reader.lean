import StyleTokens.Report.Mark
import StyleTokens.Text.Lines

/-!
# Reading a report back

A report is read line by line. The reader is in the section of a kind, or in none, and collects
the parts of one group at a time; the decision ends a group. Lines that do not belong to a group
are passed over. A group that lacks its canonical file or breaks a rule is left out, with a
warning.

## Main definitions

* `PendingGroup`: the parts of the group being read
* `ReportReader`, `ReportReader.step`: the state between two lines, and its change by a line
* `Report.read`: the groups of a report, and the warnings
-/

namespace StyleTokens

/-- The parts of the group being read. -/
structure PendingGroup where
  kind : TokenKind
  matchType : MatchType
  names : List Text
  files : List Text := []
  /-- The canonical file, once read. -/
  canonical : Option Text := none
  /-- Whether the list of files is being read. -/
  collecting : Bool := false
  deriving DecidableEq, Repr

namespace PendingGroup

/-- The start of a warning about the group. -/
def warning (pending : PendingGroup) : Text :=
  "Warning: report group ".toList ++ Text.quotedList pending.names

/-- The group with its decision, or a warning. -/
def finish (pending : PendingGroup) (disposition : Disposition) : Except Text Group :=
  match pending.canonical with
  | none => .error (pending.warning ++ " has no preferred source, skipped".toList)
  | some canonical =>
    let group : Group :=
      { kind := pending.kind
        matchType := pending.matchType
        names := pending.names
        files := Ascending.ofList pending.files
        canonical := canonical
        disposition := disposition }
    group.check.mapError fun problems =>
      pending.warning ++ " is malformed, skipped: ".toList ++
        Field.summary "DuplicateGroup".toList problems

end PendingGroup

/-- The state of the reader between two lines. -/
structure ReportReader where
  kind : Option TokenKind := none
  pending : Option PendingGroup := none
  groups : List Group := []
  warnings : List Text := []
  deriving DecidableEq, Repr

namespace ReportReader

/-- The decision about the group being read. -/
def conclude (r : ReportReader) (pending : PendingGroup) (words : Text) : ReportReader :=
  match pending.finish (.ofWords words) with
  | .ok group => { r with pending := none, groups := r.groups ++ [group] }
  | .error warning => { r with pending := none, warnings := r.warnings ++ [warning] }

/-- A line inside a group. -/
def stepGroup (r : ReportReader) (pending : PendingGroup) : Mark → ReportReader
  | .definedIn => { r with pending := some { pending with collecting := true } }
  | .preferred path =>
    { r with pending := some { pending with collecting := false, canonical := some path } }
  | .disposition words => r.conclude pending words
  | .bullet path =>
    if pending.collecting then
      { r with pending := some { pending with files := pending.files ++ [path] } }
    else r
  | .blank => r
  | _ => { r with pending := some { pending with collecting := false } }

/-- A line inside the section of a kind. -/
def stepSection (r : ReportReader) (kind : TokenKind) : Mark → ReportReader
  | .token name => { r with pending := some ⟨kind, .exact, [name], [], none, false⟩ }
  | .variants names => { r with pending := some ⟨kind, .near, names, [], none, false⟩ }
  | mark =>
    match r.pending with
    | some pending => r.stepGroup pending mark
    | none => r

/-- A line. -/
def step (r : ReportReader) : Mark → ReportReader
  | .kind key => { r with kind := TokenKind.ofKey? key, pending := none }
  | mark =>
    match r.kind with
    | some kind => r.stepSection kind mark
    | none => r

end ReportReader

namespace Report

/-- The reader behind a report. -/
def readAll (t : Text) : ReportReader :=
  (t.lines.map fun line => Mark.ofLine line.body).foldl ReportReader.step {}

/-- The groups of a report. -/
def read (t : Text) : List Group :=
  (readAll t).groups

/-- The warnings about the groups left out. -/
def warnings (t : Text) : List Text :=
  (readAll t).warnings

end Report

end StyleTokens
