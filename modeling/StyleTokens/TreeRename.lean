import StyleTokens.Rename
import StyleTokens.Summary
import StyleTokens.Text.Unpaired
import StyleTokens.Timing
import StyleTokens.World

/-!
# Renaming in a tree

The names in every stylesheet under a directory are changed, except in protected directories.
Without leave to write, only the changes are counted. A file that cannot be read or written is
left out with a warning. A text without an encoding ends the run in failure, after all files were
worked on.

## Main definitions

* `RenameJob`: what is renamed
* `RenameJob.onFile`, `RenameJob.onFiles`: the files after the renaming, with the number of changes
* `renameTree`: the renaming of a directory
-/

namespace StyleTokens

/-- What is renamed. -/
structure RenameJob where
  /-- Old and new names. -/
  pairs : List (Text × Text)
  /-- Whether new names may hold unpaired surrogates. If so, a changed text with a private-use
  character that stands for one is not stored, also where the file held this character before. -/
  mayBreak : Bool := false
  write : Bool := false
  deriving DecidableEq, Repr

namespace RenameJob

/-- The tree after the renaming in one file, and the number of changes. -/
def onFile (job : RenameJob) (tree : FileTree) (path : Path) : FileTree × Except Refusal Nat :=
  match tree.readText path with
  | .error refusal => (tree, .error refusal)
  | .ok t =>
    let (updated, count) := rename job.pairs t
    if job.write && count ≠ 0 then
      let (tree, result) := tree.replaceFile path updated (!job.mayBreak || updated.isWhole)
      (tree, result.map fun _ => count)
    else (tree, .ok count)

/-- The tree after the renaming in several files, and the number of changes in each. -/
def onFiles (job : RenameJob) : List Path → FileTree → FileTree × List (Path × Except Refusal Nat)
  | [], tree => (tree, [])
  | path :: rest, tree =>
    let (tree, result) := job.onFile tree path
    let (tree, results) := onFiles job rest tree
    (tree, (path, result) :: results)

/-- The failure that ends a run: a text without an encoding. -/
def fatal? (result : Except Refusal Nat) : Option Refusal :=
  match result with
  | .error (.noEncoding path) => some (.noEncoding path)
  | _ => none

/-- The results in front of the first that ends the run. -/
def beforeFatal (results : List (Text × Except Refusal Nat)) : List (Text × Except Refusal Nat) :=
  results.takeWhile fun (_, result) => (fatal? result).isNone

/-- The changed files among results. -/
def changes (results : List (Text × Except Refusal Nat)) : List FileChange :=
  results.filterMap fun
    | (path, .ok (n + 1)) => some ⟨path, n + 1⟩
    | _ => none

/-- The warnings about files left out. -/
def warnings (results : List (Text × Except Refusal Nat)) : List Message :=
  results.filterMap fun
    | (path, .error refusal) =>
      some (.because ("Warning: Failed to rewrite ".toList ++ path ++ ": ".toList) refusal.words)
    | _ => none

/-- The timing of the files worked on. -/
def timing (took : Text → Float) (results : List (Text × Except Refusal Nat)) : Timing :=
  results.foldl
    (fun timing (path, result) =>
      match result with
      | .ok _ => timing.record (took path) path
      | .error _ => timing)
    { stage := "rename".toList }

end RenameJob

/-- The stylesheets under a directory that are not protected. -/
def FileTree.unprotected (tree : FileTree) (root : Path) (endings protectedDirectories : List Text) :
    List Path :=
  (tree.walk root endings).filter fun path => !path.isProtected root protectedDirectories

/-- The renaming of a directory, whose paths are shown from a base. -/
def renameTree (surroundings : Surroundings) (job : RenameJob) (root base : Path)
    (endings protectedDirectories : List Text) : Action Summary := do
  let tree ← Action.tree
  if !(← Action.isDirectory root) then
    throw (.input (.ofText ("Source root not found: ".toList ++ root.text)))
  let paths := tree.unprotected root endings protectedDirectories
  let (after, results) := job.onFiles paths tree
  Action.setTree after
  let results := results.map fun (path, result) => (path.relative tree.working base, result)
  (RenameJob.warnings (RenameJob.beforeFatal results)).forM Action.warn
  match results.findSome? fun (_, result) => RenameJob.fatal? result with
  | some refusal => throw (.refused refusal)
  | none =>
    if surroundings.settings.debug then
      Action.warn (RenameJob.timing surroundings.took results).report
    return { changes := RenameJob.changes results, scanned := paths.length, written := job.write }

end StyleTokens
