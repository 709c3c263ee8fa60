import StyleTokens.AliasPlan
import StyleTokens.Summary
import StyleTokens.World

/-!
# Pruning in a tree

The redundant declarations of the groups of a report are deleted, file after file in the order of
their paths. Without leave to write, they are only looked for. What was found goes into an alias
plan. A file that cannot be read is left out with a notice; one that cannot be written, or has no
possible path, ends the run.

## Main definitions

* `PruneNotice`, `PruneRun`: what happens during a run
* `PruneRun.step`: the deletions in one file
* `pruneTree`: the run for the groups of a report
-/

namespace StyleTokens

/-- What a run tells about a file. -/
inductive PruneNotice where
  /-- The file cannot be read. -/
  | unreadable (path : Text) (refusal : Refusal)
  /-- The tokens looked for, and those that were found. -/
  | searched (path : Text) (planned found : List Text)
  deriving DecidableEq, Repr

namespace PruneNotice

/-- Whether the notice is one of the details. -/
def isDetail : PruneNotice → Bool
  | .unreadable _ _ => false
  | .searched _ _ _ => true

/-- The line for a notice. -/
def message : PruneNotice → Message
  | .unreadable path refusal =>
    .because ("Warning: Cannot read ".toList ++ path ++ ", skipped: ".toList) refusal.words
  | .searched path planned found =>
    .ofText ("DEBUG: ".toList ++ path ++ ": planned ".toList ++ Text.quotedList planned ++
      ", found ".toList ++ Text.quotedList found)

end PruneNotice

/-- The state of a run between two files. -/
structure PruneRun where
  tree : FileTree
  plan : AliasPlan := {}
  changes : List FileChange := []
  notices : List PruneNotice := []
  /-- What ended the run. -/
  failure : Option Refusal := none
  deriving DecidableEq, Repr

namespace PruneRun

/-- The run with the deletions of one file recorded and, if `write` is set, written. -/
def apply (run : PruneRun) (write : Bool) (path : Path) (file updated : Text)
    (removed : List Text) : PruneRun :=
  let run := { run with
    plan := run.plan.recordAll file removed
    changes := run.changes ++ [⟨file, removed.length⟩] }
  if write then
    match run.tree.replaceFile path updated true with
    | (tree, .ok ()) => { run with tree := tree }
    | (tree, .error refusal) => { run with tree := tree, failure := some refusal }
  else run

/-- The deletions in one file, unless the run has ended. -/
def step (base : Path) (write : Bool) (run : PruneRun) (target : Text × List Text) : PruneRun :=
  if run.failure.isSome then run
  else
    let (file, tokens) := target
    let path := base.append (Path.parse file)
    match run.tree.readText path with
    | .error (.nullCharacter path) => { run with failure := some (.nullCharacter path) }
    | .error refusal => { run with notices := run.notices ++ [.unreadable file refusal] }
    | .ok t =>
      let (updated, removed) := prune tokens t
      let run := { run with notices := run.notices ++ [.searched file tokens removed] }
      if removed.isEmpty then run else run.apply write path file updated removed

/-- The run over the targets of some groups. -/
def ofGroups (tree : FileTree) (base : Path) (write : Bool) (groups : List Group) : PruneRun :=
  (Table.ofList (planRemovals groups)).foldl (step base write) { tree := tree }

end PruneRun

/-- The deletions for the groups of a report, whose paths are seen from a base. -/
def pruneTree (surroundings : Surroundings) (base : Path) (write : Bool) (groups : List Group) :
    Action (AliasPlan × Summary) := do
  let run := PruneRun.ofGroups (← Action.tree) base write groups
  Action.setTree run.tree
  (run.notices.filter fun notice => surroundings.settings.debug || !notice.isDetail).forM
    fun notice => Action.warn notice.message
  match run.failure with
  | some refusal => throw (.refused refusal)
  | none =>
    return (run.plan,
      { changes := run.changes, scanned := (planRemovals groups).length, written := write })

end StyleTokens
