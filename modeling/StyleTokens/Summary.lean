import StyleTokens.Field

/-!
# Summaries of changes

What a run over a tree changed, or would change: the files with the number of changes in each.

## Main definitions

* `FileChange`: the changes in one file
* `Summary`: the changes of a run
* `Summary.printed`: the summary of a renaming as it is shown
-/

namespace StyleTokens

/-- The changes in one file. -/
structure FileChange where
  path : Text
  /-- The number of changes, at least one. -/
  replacements : Nat
  deriving DecidableEq, Repr

/-- The change with the given members. -/
def FileChange.ofMembers (members : List (Text × Json.Value)) : Checked FileChange := do
  let (path, replacements) ← Checked.both
    (Field.required members "path".toList Field.text)
    (Field.required members "replacements".toList (Field.integerAtLeast 1))
  return ⟨path, replacements.toNat⟩

/-- The changes of a run over a tree. -/
structure Summary where
  /-- The files with at least one change. -/
  changes : List FileChange := []
  /-- The number of files looked at. -/
  scanned : Nat := 0
  written : Bool := false
  deriving DecidableEq, Repr

namespace Summary

/-- The summary of changes with the other members. -/
def ofMembers (changes : List FileChange) (members : List (Text × Json.Value)) :
    Checked Summary := do
  let (scanned, written) ← Checked.both
    (Field.optional members "scanned_files".toList (Field.integerAtLeast 0) 0)
    (Field.optional members "written".toList Field.flag false)
  return ⟨changes, scanned.toNat, written⟩

/-- The number of changes in all files. -/
def total (summary : Summary) : Nat :=
  summary.changes.foldl (fun count change => count + change.replacements) 0

/-- The number of changes by path. -/
def counts (summary : Summary) : Entries Text Nat :=
  Entries.ofList (summary.changes.map fun change => (change.path, change.replacements))

/-- The line of a changed file. -/
def changeLine (change : FileChange) : Text :=
  "  ".toList ++ change.path ++ "  ->  ".toList ++ Text.ofNat change.replacements ++
    " replacement".toList ++ Text.plural change.replacements

/-- The lines of the summary of a renaming. -/
def lines (summary : Summary) : List Text :=
  [[], "Codemod Summary:".toList] ++ summary.changes.map changeLine ++
    [[], if summary.written then
        "Files updated: ".toList ++ Text.ofNat summary.changes.length ++ ['.']
      else "Dry run only - re-run with --write to apply.".toList]

/-- The summary of a renaming as it is shown. -/
def printed (summary : Summary) : Text :=
  summary.lines.flatMap (· ++ ['\n'])

end Summary

end StyleTokens
